import MentionCommands.Text.Alphanumeric
import MentionCommands.Token.Stream
import MentionCommands.Code.Index
import MentionCommands.Markdown.Structure
import MentionCommands.Grammar.BuiltIn
import MentionCommands.Grammar.Samples
import MentionCommands.Dispatch.Session
import MentionCommands.Log.Record
import MentionCommands.Registry
import MentionCommands.Reply
import MentionCommands.Settings
import MentionCommands.Proofs.Markdown.Leaves
import MentionCommands.Proofs.Code.Spans
import MentionCommands.Proofs.Dispatch.Mentions
import MentionCommands.Proofs.Dispatch.Rule
import MentionCommands.Proofs.Dispatch.Repeat
import MentionCommands.Proofs.Grammar.Progress
import MentionCommands.Proofs.Dispatch.Run
import MentionCommands.Proofs.Grammar.Escape
import MentionCommands.Proofs.Grammar.Written
import MentionCommands.Proofs.Dispatch.Transcript
import MentionCommands.Proofs.Dispatch.Ambiguity
import MentionCommands.Proofs.Dispatch.Order
import MentionCommands.Proofs.Dispatch.Hidden
import MentionCommands.Proofs.Code.Parts
import MentionCommands.Proofs.Dispatch.Cells
import MentionCommands.Proofs.Markdown.Fenced
import MentionCommands.Proofs.Markdown.Listing
import MentionCommands.Proofs.Markdown.Laws
import MentionCommands.Proofs.Markdown.CommonMark
import MentionCommands.Proofs.Code.FencedText
import MentionCommands.Proofs.Reply.Fence
import MentionCommands.Proofs.Reply.Help
import MentionCommands.Proofs.Indexed.Code
import MentionCommands.Proofs.Indexed.Token
import MentionCommands.Proofs.Indexed.Grammar
import MentionCommands.Proofs.Indexed.Session
import MentionCommands.Proofs.Code.Merged
import MentionCommands.Proofs.Text.Breaks
import MentionCommands.Proofs.Code.Breaks
import MentionCommands.Proofs.Grammar.Language
import MentionCommands.Proofs.Registry.Calls
import MentionCommands.Proofs.Registry.Shared
import MentionCommands.Proofs.Grammar.Relabeling
import MentionCommands.Proofs.Grammar.Lenience
import MentionCommands.Proofs.Grammar.Assigning
import MentionCommands.Proofs.Grammar.Slices
import MentionCommands.Proofs.Grammar.Behind
import MentionCommands.Proofs.Grammar.Located
import MentionCommands.Proofs.Token.Tiling
import MentionCommands.Proofs.Token.Marks
import MentionCommands.Proofs.Token.Respaced
import MentionCommands.Proofs.Token.Quotes
import MentionCommands.Proofs.Token.Faults
import MentionCommands.Proofs.Token.Backtracking
import MentionCommands.Proofs.Dispatch.Standalone
import MentionCommands.Proofs.Code.Backticks
import MentionCommands.Proofs.Code.LineRanges
