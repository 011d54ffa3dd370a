import NearNotes.Cache.Basic
import NearNotes.Cache.Flight
import NearNotes.Command.Arguments
import NearNotes.Command.Run
import NearNotes.Config.Basic
import NearNotes.Config.File
import NearNotes.Digest.Embedding
import NearNotes.Digest.Sha256
import NearNotes.Error
import NearNotes.Json.Number
import NearNotes.Json.Reader
import NearNotes.Json.Writer
import NearNotes.Main
import NearNotes.Note.Section
import NearNotes.Pattern.CharSet
import NearNotes.Pattern.Parser
import NearNotes.Pattern.Program
import NearNotes.Pattern.Search
import NearNotes.Pattern.Syntax
import NearNotes.Pipeline.Basic
import NearNotes.Pipeline.Stage
import NearNotes.Population.Job
import NearNotes.Population.Window
import NearNotes.Proofs.Blob
import NearNotes.Proofs.Flight.Line
import NearNotes.Proofs.Rows
import NearNotes.Provider.Basic
import NearNotes.Provider.Duration
import NearNotes.Provider.Embed
import NearNotes.Provider.Retry
import NearNotes.Provider.Task
import NearNotes.Provider.Together
import NearNotes.Provider.Work
import NearNotes.Remote.Basic
import NearNotes.Remote.Body
import NearNotes.Remote.Url
import NearNotes.Storage.Disk
import NearNotes.Storage.Image
import NearNotes.Storage.Sqlite
import NearNotes.Storage.Table
import NearNotes.Text.Digits
import NearNotes.Text.Letter
import NearNotes.Text.Lines
import NearNotes.Text.Printable
import NearNotes.Text.Quoted
import NearNotes.Text.Slice
import NearNotes.Text.Spans
import NearNotes.Text.Utf8
import NearNotes.Toml.Document
import NearNotes.Toml.Parser
import NearNotes.Toml.Scalar
import NearNotes.Toml.Text
import NearNotes.Toml.Value
import NearNotes.Vector.Binary64
import NearNotes.Vector.Bytes
import NearNotes.Vector.Blob
import NearNotes.Vector.Distance
import NearNotes.Vector.Fixed
import NearNotes.Vector.Corpus
import NearNotes.Proofs.Flight.Step
import NearNotes.Proofs.Flight.Single
import NearNotes.Proofs.Flight.Agreement
import NearNotes.Proofs.Flight.Alone
import NearNotes.Proofs.Ledger
import NearNotes.Proofs.Flight.Onward
import NearNotes.Proofs.Population.Path
import NearNotes.Proofs.Population.Stored
import NearNotes.Proofs.Nearest
import NearNotes.Proofs.Results
import NearNotes.Proofs.Report
import NearNotes.Proofs.Provider.Quiet
import NearNotes.Proofs.Population.Sequential
import NearNotes.Proofs.Flight.Crew
import NearNotes.Proofs.Flight.Turn
import NearNotes.Proofs.Population.Staffed
import NearNotes.Proofs.Population.Underway
import NearNotes.Proofs.Population.Outcome
import NearNotes.Proofs.Flight.Callers
import NearNotes.Proofs.Flight.Keys
import NearNotes.Proofs.Flight.Failure
import NearNotes.Proofs.Flight.Handover
import NearNotes.Proofs.Population.Crowd
import NearNotes.Proofs.Population.Shared
import NearNotes.Proofs.Alike
import NearNotes.Proofs.Population.Own
import NearNotes.Proofs.Contents
import NearNotes.Proofs.Provider.Beside
import NearNotes.Proofs.Flight.Tally
import NearNotes.Proofs.Population.Traffic
import NearNotes.Proofs.Population.Counted
import NearNotes.Proofs.Flight.Uniform
import NearNotes.Proofs.Population.Dimension
import NearNotes.Proofs.Neighbors
import NearNotes.Proofs.Provider.Layers
import NearNotes.Proofs.Offline
import NearNotes.Proofs.Ranking
import NearNotes.Proofs.Note.Cuts
import NearNotes.Proofs.Pattern.Explore
import NearNotes.Proofs.Pattern.Groups
import NearNotes.Proofs.Pattern.Shape
import NearNotes.Proofs.Pattern.Threads
import NearNotes.Proofs.Pattern.Scan
import NearNotes.Proofs.Pattern.Matches
import NearNotes.Proofs.Note.Partition
import NearNotes.Proofs.Note.Lines
import NearNotes.Proofs.Pattern.Heading
import NearNotes.Proofs.Note.Headings
import NearNotes.Proofs.Note.Offsets
import NearNotes.Proofs.Note.Outline
import NearNotes.Proofs.Vector.Unpacked
import NearNotes.Proofs.Vector.Distance
import NearNotes.Proofs.OwnNeighbor
import NearNotes.Proofs.Population.Spared
import NearNotes.Proofs.Locality
import NearNotes.Proofs.ChosenLine
import NearNotes.Proofs.Provider.Parked
import NearNotes.Proofs.Provider.Retries
import NearNotes.Proofs.Vector.Order
import NearNotes.Proofs.Selection
import NearNotes.Proofs.Provider.Items
import NearNotes.Proofs.Provider.Batch
import NearNotes.Proofs.Population.Width
import NearNotes.Proofs.Provider.Pauses
import NearNotes.Proofs.Digest
