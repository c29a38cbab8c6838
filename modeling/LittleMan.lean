import LittleMan.Assembly.WordCursor
import LittleMan.Machine.Inspect
import LittleMan.Main
import LittleMan.Proofs.Assembly.HaltLines
import LittleMan.Proofs.Assembly.Clauses
import LittleMan.Proofs.Assembly.Relisting
import LittleMan.Proofs.Assembly.CommentPlaces
import LittleMan.Proofs.Assembly.TwoPasses
import LittleMan.Proofs.Assembly.Lines
import LittleMan.Proofs.Assembly.Spacing
import LittleMan.Proofs.Machine.Relocation
import LittleMan.Proofs.Machine.Loaded
import LittleMan.Proofs.Machine.EventReplay
import LittleMan.Proofs.Machine.Runs
import LittleMan.Proofs.Command.Running
import LittleMan.Proofs.Command.Dialogues
import LittleMan.Proofs.Machine.Printouts
import LittleMan.Proofs.Machine.PrintedNumbers
import LittleMan.Proofs.Assembly.StatementTexts
import LittleMan.Proofs.Machine.FailureLines
import LittleMan.Proofs.Assembly.WordLines
import LittleMan.Proofs.Assembly.ErrorPlaces
import LittleMan.Proofs.Assembly.UniqueLabels
import LittleMan.Proofs.Assembly.LabelRecords
import LittleMan.Proofs.Machine.LeftoverMemory
import LittleMan.Proofs.Machine.NumberRange
import LittleMan.Proofs.Machine.Loading
import LittleMan.Proofs.Machine.Sums
import LittleMan.Proofs.Machine.QueuedNumbers
import LittleMan.Proofs.Assembly.Numerals
import LittleMan.Proofs.Assembly.Dumps
import LittleMan.Proofs.Assembly.WordReading
import LittleMan.Proofs.Source.Locations
import LittleMan.Proofs.Assembly.Suggestions
import LittleMan.Proofs.Assembly.HighWater
import LittleMan.Proofs.Assembly.LabelHistory
