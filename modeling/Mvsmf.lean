import Mvsmf.Common.EtagList
import Mvsmf.Dsapi.EtagBurst
import Mvsmf.Dsapi.LevelSplit
import Mvsmf.Dsapi.DscbChain
import Mvsmf.Dsapi.LineSplit
import Mvsmf.Common.SendAll
import Mvsmf.Common.Socket
import Mvsmf.Jobs.SpoolPrint
import Mvsmf.Jobs.JclLines
import Mvsmf.Jobs.ContinueCard
import Mvsmf.Jobs.JobIdentity
import Mvsmf.Jobs.JobLine
import Mvsmf.Jobs.JobDocument
import Mvsmf.Jobs.JobOutage
import Mvsmf.Jobs.JobReqBody
import Mvsmf.Jobs.StripOperand
import Mvsmf.Console.Capture
import Mvsmf.Console.DetectRun
import Mvsmf.Console.HardcopyLog
import Mvsmf.Console.Lock
import Mvsmf.Console.Context
import Mvsmf.Console.EntryKeys
import Mvsmf.Console.EntryHandlers
import Mvsmf.Console.DetectHandler
import Mvsmf.Dsapi.RoundTrip
import Mvsmf.Dsapi.PutSafety
import Mvsmf.Dsapi.Readers
import Mvsmf.Dsapi.DatasetList
import Mvsmf.Dsapi.MemberDocument
import Mvsmf.Dsapi.LikeSpace
import Mvsmf.Dsapi.AllocRequest
import Mvsmf.Ussapi.UssRead
import Mvsmf.Ussapi.UssCreate
import Mvsmf.Ussapi.UssTree
import Mvsmf.Ussapi.UssStream
import Mvsmf.Router.Routes
import Mvsmf.Router.SessionRun
import Mvsmf.Dsapi.ControlName
import Mvsmf.Dsapi.RecordCount
import Mvsmf.Dsapi.Mediation
import Mvsmf.Common.ErrorReport
import Mvsmf.Router.Worker
import Mvsmf.Console.IssueHandler
import Mvsmf.Console.IssueAnswer
