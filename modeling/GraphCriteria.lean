import GraphCriteria.Main
import GraphCriteria.Workspace
import GraphCriteria.Proofs.Tree
import GraphCriteria.Proofs.Passes
import GraphCriteria.Proofs.Drafts
import GraphCriteria.Proofs.Compiling
import GraphCriteria.Proofs.Rendering
import GraphCriteria.Proofs.Reachable
import GraphCriteria.Proofs.Phases
import GraphCriteria.Proofs.Leaves
import GraphCriteria.Proofs.SelfContained
import GraphCriteria.Proofs.Reference
import GraphCriteria.Proofs.Reading
import GraphCriteria.Proofs.OnePass
import GraphCriteria.Proofs.Retry
import GraphCriteria.Proofs.ResolverCalls
import GraphCriteria.Proofs.Plans
import GraphCriteria.Proofs.Variables
import GraphCriteria.Proofs.Described
import GraphCriteria.Proofs.Predicates
import GraphCriteria.Proofs.FirstFault
import GraphCriteria.Proofs.FieldMappings
import GraphCriteria.Proofs.EscaperCalls
import GraphCriteria.Proofs.Frozen
import GraphCriteria.Proofs.EarlyCompile
import GraphCriteria.Proofs.Grammar
import GraphCriteria.Proofs.WellFormed
import GraphCriteria.Proofs.Survival
import GraphCriteria.Proofs.Agreement
import GraphCriteria.Proofs.Spellings
import GraphCriteria.Proofs.Reordering
import GraphCriteria.Proofs.Progress
import GraphCriteria.Proofs.Misuse
import GraphCriteria.Proofs.Building
import GraphCriteria.Proofs.Filters
import GraphCriteria.Proofs.Repetition
import GraphCriteria.Proofs.Unions
import GraphCriteria.Proofs.TermReader
import GraphCriteria.Proofs.Tokens
import GraphCriteria.Proofs.SelfDelimiting
import GraphCriteria.Proofs.QuotedPatterns
import GraphCriteria.Proofs.Numerals
import GraphCriteria.Proofs.Files
import GraphCriteria.Proofs.Delivery
import GraphCriteria.Proofs.OperatorNames
import GraphCriteria.Proofs.Listings
import GraphCriteria.Proofs.Memos
