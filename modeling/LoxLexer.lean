import LoxLexer.Main
import LoxLexer.Program
import LoxLexer.Segment.Basic
import LoxLexer.Segment.Located
import LoxLexer.Proofs.File.Directory
import LoxLexer.Proofs.Program.Conversation
import LoxLexer.Proofs.Program.Listing
import LoxLexer.Proofs.Program.Outcome
import LoxLexer.Proofs.Prompt.Ending
import LoxLexer.Proofs.Prompt.Entries
import LoxLexer.Proofs.Scan.Extension
import LoxLexer.Proofs.Scan.Lines
import LoxLexer.Proofs.Scan.Rendering
import LoxLexer.Proofs.Scan.Restart
import LoxLexer.Proofs.Scan.Closing
import LoxLexer.Proofs.Scan.Neighbours
import LoxLexer.Proofs.Scan.LineEnds
import LoxLexer.Proofs.Binary64.Rounding
import LoxLexer.Proofs.Scan.Numbers
import LoxLexer.Proofs.Reporter.History
import LoxLexer.Proofs.Scanner.Progress
