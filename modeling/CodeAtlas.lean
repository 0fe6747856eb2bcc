import CodeAtlas.Main
import CodeAtlas.Server.Basic
import CodeAtlas.Dialogue.Completion
import CodeAtlas.Repository.Retry
import CodeAtlas.Proofs.Assembly.Supertypes
import CodeAtlas.Proofs.Assembly.Ambiguity
import CodeAtlas.Proofs.Clustering.Partition
import CodeAtlas.Proofs.Repository.Independence
import CodeAtlas.Proofs.Repository.Failures
import CodeAtlas.Proofs.Repository.History
import CodeAtlas.Proofs.Repository.Answers
import CodeAtlas.Proofs.Impact.Additive
import CodeAtlas.Proofs.Dialogue.Rounds
import CodeAtlas.Proofs.Clustering.Outcomes
import CodeAtlas.Proofs.Clustering.Support
import CodeAtlas.Proofs.Text.Tally
import CodeAtlas.Proofs.Report.Agreement
import CodeAtlas.Proofs.Repository.Interleaving
import CodeAtlas.Proofs.Pattern.First
import CodeAtlas.Proofs.Source.Heading
import CodeAtlas.Proofs.Source.Clause
import CodeAtlas.Proofs.Source.TypeList
import CodeAtlas.Proofs.Source.Extension
import CodeAtlas.Proofs.Source.Inheritance
import CodeAtlas.Proofs.Source.HeadingLine
import CodeAtlas.Proofs.Flow.Tree
import CodeAtlas.Proofs.Flow.Distinct
import CodeAtlas.Proofs.Flow.Reordering
import CodeAtlas.Proofs.Clustering.Ascent
import CodeAtlas.Proofs.Source.Relocation
import CodeAtlas.Proofs.Search.FusedOrder
import CodeAtlas.Proofs.Search.Answers
import CodeAtlas.Proofs.Search.Terms
import CodeAtlas.Proofs.Repository.Repetition
import CodeAtlas.Proofs.Repository.Cancellation
import CodeAtlas.Proofs.Dialogue.Registration
import CodeAtlas.Proofs.Assembly.Innermost
import CodeAtlas.Proofs.Graph.Scan
import CodeAtlas.Proofs.Source.ImportClause
import CodeAtlas.Proofs.Assembly.Locality
import CodeAtlas.Proofs.Dialogue.Message
import CodeAtlas.Proofs.Source.Placement
import CodeAtlas.Proofs.Disk.IgnorePattern
