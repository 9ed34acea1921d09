import CoroUtil.MpscBounded.Wakeup
import CoroUtil.MpscBounded.Empty
import CoroUtil.MpscBounded.FlagWords
import CoroUtil.MpscBounded.InTurn
import CoroUtil.MpscBounded.Teardown
import CoroUtil.SpscBounded.Bulk
import CoroUtil.SpscBounded.TryPush
import CoroUtil.MpscUnbounded.Sweep
import CoroUtil.MpscUnbounded.Answers
import CoroUtil.Mpsc.Closed
import CoroUtil.Unbounded.Empty
import CoroUtil.Channel.World
import CoroUtil.MpscUnbounded.Hint
import CoroUtil.MpscUnbounded.Asserts
import CoroUtil.Blocks.Intact
import CoroUtil.Channel.Reclamation.Handed
