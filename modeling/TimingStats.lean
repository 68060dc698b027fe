import TimingStats.Bencher
import TimingStats.Files.Tree
import TimingStats.Main
import TimingStats.Proofs.Accumulator.Exactness
import TimingStats.Proofs.Recorder.Equivalence
import TimingStats.Proofs.Accumulator.Equality
import TimingStats.Distribution.Table
import TimingStats.Proofs.Distribution.Building
import TimingStats.Proofs.Recorder.Insertions
import TimingStats.Proofs.Recorder.Counters
import TimingStats.Proofs.Distribution.Summaries
import TimingStats.Proofs.Comparison.Faults
import TimingStats.Proofs.Program.Errors
import TimingStats.Proofs.Binary64.Representable
import TimingStats.Proofs.Binary64.Sums
import TimingStats.Proofs.Binary64.Faithful
import TimingStats.Proofs.Accumulator.Conversion
import TimingStats.Proofs.Distribution.Ranks
import TimingStats.Proofs.Distribution.Resampling
import TimingStats.Proofs.Binary64.Quotients
import TimingStats.Proofs.Binary64.Order
import TimingStats.Proofs.Comparison.Replicates
import TimingStats.Proofs.Comparison.Interval
import TimingStats.Proofs.Distribution.Median
import TimingStats.Proofs.Comparison.Significance
import TimingStats.Proofs.Comparison.Overlap
import TimingStats.Proofs.Distribution.Queries
import TimingStats.Proofs.Distribution.Scaling
import TimingStats.Proofs.Comparison.Draws
import TimingStats.Proofs.Comparison.Units
import TimingStats.Proofs.Recorder.Translation
import TimingStats.Proofs.Recorder.Tolerance
import TimingStats.Proofs.Samples.Listings
import TimingStats.Proofs.Distribution.NearestRank
import TimingStats.Proofs.OutlierWindow.SingleSaturation
import TimingStats.Proofs.Distribution.ExactMean
import TimingStats.Proofs.Distribution.PercentileOrder
import TimingStats.Proofs.Distribution.Enclosure
import TimingStats.Proofs.Bencher.Calls
import TimingStats.Proofs.Bencher.Counts
import TimingStats.Proofs.Config.Nearest
