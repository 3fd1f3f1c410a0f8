import Spindle.Main
import Spindle.Proofs.Storage.FreeDevices
import Spindle.Proofs.Storage.ByKey
import Spindle.Proofs.Storage.ByPlace
import Spindle.Proofs.Storage.Keys
import Spindle.Proofs.Storage.Actions
import Spindle.Proofs.Storage.Endings
import Spindle.Proofs.Device.Items
import Spindle.Proofs.Json.RecordSpelling
import Spindle.Proofs.Device.ParentType
import Spindle.Proofs.Cli.Exit
import Spindle.Proofs.Cli.Output
import Spindle.Proofs.Cli.Help
import Spindle.Proofs.Storage.JsonSettings
import Spindle.Proofs.Device.Spelling
import Spindle.Proofs.Device.Schema
import Spindle.Proofs.Device.Documents
import Spindle.Proofs.Storage.SizeText
import Spindle.Proofs.Storage.Repeats
import Spindle.Proofs.Storage.Reports
import Spindle.Proofs.Storage.Influence
import Spindle.Proofs.Storage.Unread
import Spindle.Proofs.Storage.Integers
import Spindle.Proofs.Cli.TableLines
import Spindle.Proofs.Storage.Usability
import Spindle.Proofs.Storage.Climb
