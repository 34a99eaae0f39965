import Backtest.Main
import Backtest.Strategy.Reader
import Backtest.Proofs.NoLookAhead
import Backtest.Proofs.TradeLog
import Backtest.Proofs.EquityReplay
import Backtest.Proofs.Crossings
import Backtest.Proofs.Merging
import Backtest.Proofs.Warmup
import Backtest.Proofs.RightSide
import Backtest.Proofs.Binary64
import Backtest.Proofs.ExactValue
import Backtest.Proofs.ParameterValues
import Backtest.Proofs.DefinitionLanguage
import Backtest.Proofs.Acceptance
import Backtest.Proofs.DefinitionFixpoint
import Backtest.Proofs.LatestBars
import Backtest.Proofs.Pointwise
import Backtest.Proofs.Convergence
import Backtest.Proofs.DeclaredWarmup
import Backtest.Proofs.ExactAverages
import Backtest.Proofs.FadingAverage
import Backtest.Proofs.ExactStrength
import Backtest.Proofs.LastPosition
import Backtest.Proofs.PriceScale
import Backtest.Proofs.PriceUnits
import Backtest.Proofs.SteadyPrices
import Backtest.Proofs.Dominance
import Backtest.Proofs.Batches
import Backtest.Proofs.FiniteOutput
import Backtest.Proofs.BacktestCommand
import Backtest.Proofs.FlagOrSetting
import Backtest.Proofs.ParameterPlacement
import Backtest.Proofs.PositionLedger
import Backtest.Proofs.LargestDecline
import Backtest.Proofs.RuleLists
import Backtest.Proofs.TableLines
