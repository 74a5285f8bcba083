import Hyunjin.Word.Bytes
import Hyunjin.Search.Keyed
import Hyunjin.Search.Linear
import Hyunjin.Key.Format
import Hyunjin.Core.RC5
import Hyunjin.Core.Reference
import Hyunjin.Core.Kernel
import Hyunjin.Core.Driver
import Hyunjin.Core.Agreement
import Hyunjin.Core.Failure
import Hyunjin.Core.Ansi
import Hyunjin.Word.Stream
import Hyunjin.Buffer.Codec
import Hyunjin.Stdio.Disk
import Hyunjin.Buffer.Record
import Hyunjin.Buffer.Moo
import Hyunjin.Buffer.Stock
import Hyunjin.Buffer.File
import Hyunjin.Slots.Store
import Hyunjin.Buffer.Effect
import Hyunjin.Buffer.Packets
import Hyunjin.Buffer.MooLayout
import Hyunjin.Buffer.StockLayout
import Hyunjin.Buffer.MooStore
import Hyunjin.Run.Machine
import Hyunjin.Buffer.Conservation
import Hyunjin.Buffer.Damage
import Hyunjin.Buffer.Delivery
import Hyunjin.Buffer.Refinement
import Hyunjin.Buffer.Resave
import Hyunjin.Buffer.Base
import Hyunjin.Buffer.Finished
import Hyunjin.Buffer.Import
import Hyunjin.Key.Mangle
import Hyunjin.Problem.State
import Hyunjin.Problem.Run
import Hyunjin.Problem.Chunk
import Hyunjin.Problem.Slice
import Hyunjin.Problem.Winner
import Hyunjin.Problem.Resume
import Hyunjin.Problem.Checkpoint
import Hyunjin.Problem.Counters
import Hyunjin.Problem.Loader
import Hyunjin.Problem.Calls
import Hyunjin.Problem.Registry
import Hyunjin.Problem.Handover
import Hyunjin.Ruler.Golomb
import Hyunjin.Ogr.Bitmap
import Hyunjin.Ogr.State
import Hyunjin.Ogr.Levels
import Hyunjin.Ogr.Turn
import Hyunjin.Ogr.Invariant
import Hyunjin.Ogr.Create
import Hyunjin.Ogr.Calls
import Hyunjin.Ogr.Accepted
import Hyunjin.Ogr.Reached
import Hyunjin.Ogr.Found
import Hyunjin.Ogr.Complete
import Hyunjin.Ogr.Alike
import Hyunjin.Ogr.Rebuild
import Hyunjin.Ogr.Checkpoint
import Hyunjin.Ogr.Slices
import Hyunjin.Ogr.Bitmap64
import Hyunjin.Ogr.Cores
import Hyunjin.Ogr.Returns
import Hyunjin.Ogr.Registers
import Hyunjin.Ogr.Load
import Hyunjin.Core.Launches
import Hyunjin.Core.Int64
import Hyunjin.Word.Convert
import Hyunjin.Word.Multiword
import Hyunjin.Word.Triangular
import Hyunjin.Buffer.Checksum
import Hyunjin.Buffer.Units
import Hyunjin.Buffer.Layout
import Hyunjin.Buffer.Faults
import Hyunjin.Julia.Key
import Hyunjin.Julia.Driver
import Hyunjin.Julia.Agreement
import Hyunjin.Search.Drain
import Hyunjin.Buffer.Holding
import Hyunjin.Buffer.Sorting
import Hyunjin.Buffer.Sorted
import Hyunjin.Run.Rounds
import Hyunjin.Buffer.Fetch
import Hyunjin.Buffer.Transfer
import Hyunjin.Buffer.Stored
import Hyunjin.Buffer.Imported
import Hyunjin.Buffer.Recovery
import Hyunjin.Buffer.FetchRound
import Hyunjin.Buffer.Fetched
import Hyunjin.Word.Signed
import Hyunjin.Clock.Ticks
import Hyunjin.Word.LongArith
import Hyunjin.Problem.Wide
import Hyunjin.Problem.Permille
import Hyunjin.Word.Memory
import Hyunjin.Text.Base64
import Hyunjin.Text.Groups
import Hyunjin.Text.Decoding
import Hyunjin.Problem.Timeslice
import Hyunjin.Problem.Filling
import Hyunjin.Word.Strings
import Hyunjin.Text.Decimal
import Hyunjin.Problem.Stringify
import Hyunjin.Problem.Stringified
import Hyunjin.Ini.Doit
import Hyunjin.Ini.Lines
import Hyunjin.Ini.Reading
import Hyunjin.Ini.Editing
import Hyunjin.Ini.Writing
import Hyunjin.Ini.Room
import Hyunjin.Ini.Items
import Hyunjin.Ini.Plain
import Hyunjin.Ini.Putting
import Hyunjin.Ini.Erasing
import Hyunjin.Ini.Sections
import Hyunjin.Ini.Settings
import Hyunjin.Problem.Threshold
import Hyunjin.Conf.Timestring
import Hyunjin.Run.Tickets
import Hyunjin.Poll.Pollsys
import Hyunjin.Poll.Registrations
import Hyunjin.Poll.Polling
import Hyunjin.Search.Insertion
import Hyunjin.Conf.Projects
import Hyunjin.Conf.Projectmap
import Hyunjin.Conf.Projectorder
import Hyunjin.Conf.Optionlist
import Hyunjin.Conf.Scattered
import Hyunjin.Word.Printing
import Hyunjin.Ogr.Stubstr
import Hyunjin.Ogr.Shown
import Hyunjin.Run.Loops
import Hyunjin.Net.Netline
import Hyunjin.Net.Uue
import Hyunjin.Net.Netconn
import Hyunjin.Net.Stalling
import Hyunjin.Net.Roundtrip
import Hyunjin.Conf.Hostport
import Hyunjin.Conf.Hostnames
import Hyunjin.Conf.Hostlists
import Hyunjin.Ogr.Fletcher
import Hyunjin.Clock.Runtimes
import Hyunjin.Buffer.Byteorder
import Hyunjin.Mail.Spool
import Hyunjin.Mail.Address
import Hyunjin.Mail.Body
import Hyunjin.Net.Aton
import Hyunjin.Calendar.Gregorian
import Hyunjin.Log.Rotation
import Hyunjin.Log.Fifo
import Hyunjin.Run.Latest
import Hyunjin.Trigger.Check
import Hyunjin.Trigger.Conditions
import Hyunjin.Trigger.Exit
import Hyunjin.Trigger.Inifile
import Hyunjin.Trigger.Runs
import Hyunjin.Trigger.Told
import Hyunjin.Trigger.Triggers
import Hyunjin.Run.Balance
import Hyunjin.Problem.Probfill
import Hyunjin.Problem.Accounts
import Hyunjin.Problem.Life
