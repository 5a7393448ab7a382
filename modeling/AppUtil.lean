import AppUtil.FireWall.History
import AppUtil.FireWall.PortRules
import AppUtil.MiniZip.Checking
import AppUtil.MiniZip.Telling
import AppUtil.Mq.Callback
import AppUtil.Mq.Clients
import AppUtil.Mq.Refinement
import AppUtil.Mq.Refusal
import AppUtil.Mq.Release
import AppUtil.Mq.Silence
import AppUtil.Mq.Usable
import AppUtil.Pool.Grow
import AppUtil.Pool.Indices
import AppUtil.Pool.Shutdown
import AppUtil.Pool.WorkItems
import AppUtil.SevenZip.Damage
import AppUtil.SevenZip.Extraction
import AppUtil.SevenZip.Packed
import AppUtil.SevenZip.Protocol
import AppUtil.SevenZip.RoundTrip
import AppUtil.WinApi.Handles
import AppUtil.WinApi.ProcessHandles
import AppUtil.Ws.FixedBuffers
import AppUtil.Ws.Serving
import AppUtil.Zip.Closing
import AppUtil.Zip.CopyLoop
import AppUtil.Zip.FindHandles
import AppUtil.Zip.Names
import AppUtil.Zip.Policy
import AppUtil.Zip.ReadHandles
import AppUtil.Zip.ReadLoop
import AppUtil.Zip.RoundTrip
import AppUtil.Zip.Visits
