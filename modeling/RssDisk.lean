import RssDisk.Server.LockedFiles
import RssDisk.Hstf.Crash
import RssDisk.Hstf.Processing
import RssDisk.Hstf.Servers
import RssDisk.Server.Apart
import RssDisk.Network.Reconnect
import RssDisk.Network.InFlight
import RssDisk.Server.History
import RssDisk.JManager.Bounds
import RssDisk.Network.Handshake
import RssDisk.Network.Delivery
import RssDisk.Network.Admission
import RssDisk.Network.Subscriptions
import RssDisk.Client.Remover
import RssDisk.CManager.Images
import RssDisk.Client.FileInfo
import RssDisk.Client.Gathering
import RssDisk.Client.Delayed
import RssDisk.Client.Scans
import RssDisk.Client.CdbAll
import RssDisk.Client.TmsNewest
import RssDisk.Client.Calls
import RssDisk.Client.WriteFile
import RssDisk.Server.Appends
import RssDisk.BTree.Instants
import RssDisk.Index.Iterations
import RssDisk.Streamer
import RssDisk.Server.Containment
import RssDisk.DateTime.Adding
import RssDisk.Network.KeyMessage
import RssDisk.Bitbase.Types
import RssDisk.BTree.RemoveAll
import RssDisk.Client.Pool
