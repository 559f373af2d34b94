import LC3.Main
import LC3.Proofs.Builders
import LC3.Proofs.CanonicalWords
import LC3.Proofs.CaseFolding
import LC3.Proofs.CheckedReader
import LC3.Proofs.Decoding
import LC3.Proofs.Emission
import LC3.Proofs.Escapes
import LC3.Proofs.Faults
import LC3.Proofs.Fields
import LC3.Proofs.FlagHistory
import LC3.Proofs.FormTable
import LC3.Proofs.History
import LC3.Proofs.HostLoop
import LC3.Proofs.JoinedSources
import LC3.Proofs.Keywords
import LC3.Proofs.LabelAddresses
import LC3.Proofs.Layout
import LC3.Proofs.LayoutErrors
import LC3.Proofs.LineBreaks
import LC3.Proofs.LineGrammar
import LC3.Proofs.Listing
import LC3.Proofs.LiteralGrammar
import LC3.Proofs.MemoryDump
import LC3.Proofs.Names
import LC3.Proofs.Places
import LC3.Proofs.Polling
import LC3.Proofs.Printing
import LC3.Proofs.QueueFrame
import LC3.Proofs.QueueTraffic
import LC3.Proofs.ReaderOutcomes
import LC3.Proofs.Reassembly
import LC3.Proofs.References
import LC3.Proofs.Relocation
import LC3.Proofs.ResultSigns
import LC3.Proofs.RunLimits
import LC3.Proofs.Runs
import LC3.Proofs.Schedule
import LC3.Proofs.SourceLines
import LC3.Proofs.StepEndings
import LC3.Proofs.StepFrame
import LC3.Proofs.StreamView
import LC3.Proofs.Streamed
import LC3.Proofs.StringTraps
import LC3.Proofs.StringWords
import LC3.Proofs.TextOutput
import LC3.Proofs.TokenForms
import LC3.Proofs.Unplaced
import LC3.Proofs.Waiting
