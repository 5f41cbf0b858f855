import MdsBlackbox.Server.Interlock
import MdsBlackbox.Server.PwmFile
import MdsBlackbox.Server.CarRefinement
import MdsBlackbox.Server.Disconnect
import MdsBlackbox.Link.CommandLink
import MdsBlackbox.Link.AlarmLink
import MdsBlackbox.Server.EchoTiming
import MdsBlackbox.Server.PaddingReads
import MdsBlackbox.Server.LedFailure
import MdsBlackbox.Server.TriggerTimer
import MdsBlackbox.Client.Episodes
import MdsBlackbox.Client.DumpGuard
import MdsBlackbox.Client.Recordings
import MdsBlackbox.Client.MplayerClose
import MdsBlackbox.Client.Buzzer
import MdsBlackbox.Client.Itoa
import MdsBlackbox.Drivers.Modules
import MdsBlackbox.Client.BlackBox
import MdsBlackbox.Client.LateRecording
import MdsBlackbox.Server.BoardSteps
import MdsBlackbox.Server.Restarts
import MdsBlackbox.Server.LedMissing
import MdsBlackbox.Client.EventLoop
import MdsBlackbox.Lib.Greedy
import MdsBlackbox.Link.Backlog
import MdsBlackbox.Link.Cockpit
import MdsBlackbox.Link.BuzzerLink
import MdsBlackbox.Link.RecordingLink
import MdsBlackbox.Link.ClientCommands
import MdsBlackbox.Server.Lamps
import MdsBlackbox.Server.BoardCar
import MdsBlackbox.Link.LampLink
