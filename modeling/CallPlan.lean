import CallPlan.Abi.Decoding
import CallPlan.Abi.JsonForm
import CallPlan.Files.Tree
import CallPlan.Main
import CallPlan.Plan.Machine
import CallPlan.Plan.Session
import CallPlan.Proofs.Lifetimes
import CallPlan.Proofs.Slots
import CallPlan.Proofs.Assembly
import CallPlan.Proofs.Placement
import CallPlan.Proofs.Calls
import CallPlan.Proofs.FirstFit
import CallPlan.Proofs.Refusals
import CallPlan.Proofs.Drafts
import CallPlan.Proofs.DataFlow
import CallPlan.Proofs.WellFormed
import CallPlan.Proofs.LiteralTable
import CallPlan.Proofs.LastUses
import CallPlan.Proofs.Appending
import CallPlan.Proofs.Renaming
import CallPlan.Proofs.Layout
import CallPlan.Proofs.HeadTail
import CallPlan.Proofs.Checking
import CallPlan.Proofs.Decoding
import CallPlan.Proofs.Literals
import CallPlan.Proofs.History
import CallPlan.Proofs.Handles
import CallPlan.Proofs.Construction
import CallPlan.Proofs.Capacity
import CallPlan.Proofs.Numerals
import CallPlan.Proofs.Nesting
import CallPlan.Proofs.Grammar
import CallPlan.Proofs.Signatures
import CallPlan.Proofs.Indexing
import CallPlan.Proofs.Lookup
import CallPlan.Proofs.Formats
import CallPlan.Proofs.Trees
import CallPlan.Proofs.Temporaries
import CallPlan.Proofs.Runs
import CallPlan.Proofs.Words
import CallPlan.Proofs.Widths
import CallPlan.Proofs.HexDigits
import CallPlan.Proofs.HexText
import CallPlan.Proofs.IntegerTexts
import CallPlan.Proofs.Spellings
import CallPlan.Proofs.Kinds
import CallPlan.Proofs.Arguments
import CallPlan.Proofs.Spacing
import CallPlan.Proofs.Parameters
import CallPlan.Proofs.Declarations
import CallPlan.Proofs.Accounting
import CallPlan.Proofs.Validation
import CallPlan.Proofs.Listing
import CallPlan.Proofs.EntryNames
