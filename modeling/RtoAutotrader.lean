import RtoAutotrader.AutoTrader
import RtoAutotrader.Uncrossed
import RtoAutotrader.ExecutionStream
import RtoAutotrader.QuoteBacking
import RtoAutotrader.RedundantBooks
import RtoAutotrader.GenuineCallbacks
import RtoAutotrader.Ledger
import RtoAutotrader.PositionBound
import RtoAutotrader.OrderLog
import RtoAutotrader.OutboundStream
import RtoAutotrader.SendSync
import RtoAutotrader.DeadQuotes
import RtoAutotrader.SimpleExecutor
import RtoAutotrader.BookAlignment
import RtoAutotrader.LateBooks
import RtoAutotrader.Login
import RtoAutotrader.MainFaults
import RtoAutotrader.MainSends
import RtoAutotrader.WireFeeds
import RtoAutotrader.CalmWire
import RtoAutotrader.WireSettles
import RtoAutotrader.ClosedStream
import RtoAutotrader.SideQuotes
import RtoAutotrader.ReadsAll
import RtoAutotrader.LoginCut
import RtoAutotrader.DecodeKernel
import RtoAutotrader.TradingEdge
import RtoAutotrader.AnswersFirst
