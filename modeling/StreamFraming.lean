import StreamFraming.Automaton
import StreamFraming.Bounded
import StreamFraming.CommandStream
import StreamFraming.CrossCheck
import StreamFraming.Describe
import StreamFraming.Json.Codec
import StreamFraming.Json.Form
import StreamFraming.Json.Lawful
import StreamFraming.Json.Standard
import StreamFraming.Machine
import StreamFraming.Plain
import StreamFraming.Session.History
import StreamFraming.Window
import StreamFraming.Proofs.Utf8
import StreamFraming.Proofs.Terminator
import StreamFraming.Proofs.Turn
import StreamFraming.Proofs.Resume
import StreamFraming.Proofs.Chunking
import StreamFraming.Proofs.Refinement
import StreamFraming.Proofs.Opacity
import StreamFraming.Proofs.Canonical
import StreamFraming.Proofs.Spelling
import StreamFraming.Proofs.Ending
import StreamFraming.Proofs.Encoding
import StreamFraming.Proofs.Account
import StreamFraming.Proofs.Exposure
import StreamFraming.Proofs.SessionLog
import StreamFraming.Proofs.Probe
import StreamFraming.Proofs.Grammar
import StreamFraming.Proofs.Removal
import StreamFraming.Proofs.Agreement
import StreamFraming.Proofs.Strictness
import StreamFraming.Proofs.Restart
import StreamFraming.Proofs.Refusal
import StreamFraming.Proofs.Debt
import StreamFraming.Proofs.Machine.Declaration
import StreamFraming.Proofs.Machine.Scan
import StreamFraming.Proofs.Machine.Driven
import StreamFraming.Proofs.Machine.NextLine
import StreamFraming.Proofs.Bounded
import StreamFraming.Proofs.Pieces
import StreamFraming.Proofs.Partition
import StreamFraming.Proofs.Json.Number
import StreamFraming.Proofs.Json.Token
import StreamFraming.Proofs.Json.Value
import StreamFraming.Proofs.Json.Form
