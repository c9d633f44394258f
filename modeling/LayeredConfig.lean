import LayeredConfig.Main
import LayeredConfig.Proofs.Yaml.RoundTrip
import LayeredConfig.Proofs.Interpolation.Stepwise
import LayeredConfig.Proofs.Interpolation.Success
import LayeredConfig.Proofs.Compose.Compositional
import LayeredConfig.Tree.Edit
import LayeredConfig.Tree.Datum
import LayeredConfig.Proofs.Tree.InPlace
import LayeredConfig.Proofs.Compose.Cycles
import LayeredConfig.Proofs.Tree.MadeOf
import LayeredConfig.Proofs.Yaml.Reading
import LayeredConfig.Proofs.Yaml.Writing
import LayeredConfig.Proofs.Yaml.Rereading
import LayeredConfig.Proofs.File.Stores
import LayeredConfig.Proofs.File.Written
import LayeredConfig.Proofs.Logging.Sparing
import LayeredConfig.Proofs.Run.Stored
import LayeredConfig.Proofs.Run.Regular
import LayeredConfig.Proofs.Tree.Assigning
import LayeredConfig.Proofs.Interpolation.Literal
import LayeredConfig.Proofs.Run.Settled
import LayeredConfig.Proofs.Yaml.LineEnds
import LayeredConfig.Proofs.CommandLine.Replay
import LayeredConfig.Proofs.Tree.Absorption
import LayeredConfig.Proofs.Tree.CanonicalForm
import LayeredConfig.Proofs.Yaml.OneText
import LayeredConfig.Proofs.Run.Directory
import LayeredConfig.Proofs.CommandLine.Failures
import LayeredConfig.Proofs.Override.Independent
import LayeredConfig.Proofs.Interpolation.Unfinished
import LayeredConfig.Proofs.Interpolation.Ending
import LayeredConfig.Proofs.KeyPath.Rendered
import LayeredConfig.Proofs.Override.RoundTrip
import LayeredConfig.Proofs.Yaml.EmptyText
import LayeredConfig.Proofs.Compose.EmptyFile
import LayeredConfig.Proofs.Compose.RootKeys
import LayeredConfig.Proofs.Yaml.ClearMargin
import LayeredConfig.Proofs.Yaml.Subset
import LayeredConfig.Proofs.Override.SingleEntry
import LayeredConfig.Proofs.Logging.Handlers
import LayeredConfig.Proofs.Logging.Listing
import LayeredConfig.Proofs.Run.Filling
import LayeredConfig.Proofs.Run.ReadBack
import LayeredConfig.Proofs.Interpolation.Unterminated
import LayeredConfig.Proofs.Yaml.Escaping
import LayeredConfig.Proofs.Yaml.PlainPlaces
import LayeredConfig.Proofs.Yaml.StandsFor
