import TinyAprs.Lib.Mealy
import TinyAprs.Lib.Cells
import TinyAprs.Lib.Stuffing
import TinyAprs.Lib.BitStuff
import TinyAprs.Lib.Framing
import TinyAprs.Lib.Ticks
import TinyAprs.Lib.Terminated
import TinyAprs.Lib.Decimal
import TinyAprs.Lib.Lines
import TinyAprs.Lib.ShiftRegister
import TinyAprs.Lib.Rounds
import TinyAprs.Crc
import TinyAprs.Fifo
import TinyAprs.Ax25
import TinyAprs.Ax25Frame
import TinyAprs.CrcDetect
import TinyAprs.Ax25Msg
import TinyAprs.Ax25Inside
import TinyAprs.Ax25Deliver
import TinyAprs.Afsk
import TinyAprs.AfskRx
import TinyAprs.AfskTx
import TinyAprs.AfskLine
import TinyAprs.AfskOverrun
import TinyAprs.AfskDemod
import TinyAprs.AfskTone
import TinyAprs.AfskLock
import TinyAprs.ModemLoop
import TinyAprs.Settings
import TinyAprs.Digi
import TinyAprs.DigiHops
import TinyAprs.DigiDup
import TinyAprs.DigiNext
import TinyAprs.DigiPath
import TinyAprs.DigiClear
import TinyAprs.DigiBlank
import TinyAprs.Kiss
import TinyAprs.KissCmd
import TinyAprs.KissStore
import TinyAprs.KissLine
import TinyAprs.KissRun
import TinyAprs.KissFraming
import TinyAprs.KissAir
import TinyAprs.Serial
import TinyAprs.SerialTx
import TinyAprs.Lib.Flood
import TinyAprs.DigiNet
import TinyAprs.Restart
import TinyAprs.Monitor
import TinyAprs.ReadLine
import TinyAprs.Timer
import TinyAprs.Beacon
import TinyAprs.Tracker
import TinyAprs.Console
import TinyAprs.ConsoleParse
import TinyAprs.CallStore
import TinyAprs.CallText
import TinyAprs.BeaconSend
import TinyAprs.BeaconPath
import TinyAprs.BeaconText
import TinyAprs.Gps
import TinyAprs.GpsScan
import TinyAprs.GpsSum
import TinyAprs.GpsFields
import TinyAprs.Position
import TinyAprs.GpsSentence
import TinyAprs.TrackerLine
import TinyAprs.Main
import TinyAprs.BoardLine
import TinyAprs.BoardAir
import TinyAprs.BoardTracker
import TinyAprs.KissSend
import TinyAprs.KissHear
import TinyAprs.KissHost
import TinyAprs.ModeSwitch
import TinyAprs.ModeSafe
import TinyAprs.Lib.Torn
import TinyAprs.PowerLoss
import TinyAprs.LoopBounds
import TinyAprs.ConsoleSession
