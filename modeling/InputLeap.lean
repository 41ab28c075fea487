import InputLeap.LTS.Basic
import InputLeap.Config.Basic
import InputLeap.Transfer.Reassembly
import InputLeap.Transfer.StreamChunker
import InputLeap.Transfer.ClipboardChunk
import InputLeap.Transfer.FileChunk
import InputLeap.Clipboard.Basic
import InputLeap.FileClip.Basic
import InputLeap.Server.State
import InputLeap.Server.Neighbor
import InputLeap.Server.Switch
import InputLeap.Server.Registry
import InputLeap.Server.Basic
import InputLeap.Server.Cursor
import InputLeap.Server.Connected
import InputLeap.Server.Focus
import InputLeap.Server.PendingSwitch
import InputLeap.Server.FilePaste
import InputLeap.Server.Freshness
import InputLeap.Server.Clipboards
import InputLeap.Server.Delivery
import InputLeap.Server.Reload
import InputLeap.Server.RefusedReload
import InputLeap.Server.Calls
import InputLeap.Server.Lifetime
import InputLeap.Net.BigEndian
import InputLeap.Net.PacketStreamFilter
import InputLeap.Net.PacketStream
import InputLeap.Net.InputShutdown
import InputLeap.Net.Packets
import InputLeap.Net.Messages
import InputLeap.Net.Framing
import InputLeap.Config.KeyMap
import InputLeap.Config.RuleReader
import InputLeap.Gui.Hotkey
import InputLeap.Gui.KeyText
import InputLeap.Gui.SequenceText
import InputLeap.Config.RuleText
import InputLeap.Config.ScreenNames
import InputLeap.Config.EdgeLinks
import InputLeap.Config.Rename
import InputLeap.Config.ConfigReader
import InputLeap.Config.Layout
import InputLeap.Config.OptionGrammar
import InputLeap.Gui.ActionText
import InputLeap.Gui.HotkeyText
import InputLeap.Server.Crossing
import InputLeap.Server.Remembered
import InputLeap.Server.Recollects
import InputLeap.Server.Watch
import InputLeap.Server.Stored
import InputLeap.Net.Pinning
import InputLeap.Net.Writef
import InputLeap.Server.UnknownClient
import InputLeap.App.ServerApp
import InputLeap.Client.MouseCompression
import InputLeap.Server.KeyRelay
import InputLeap.Client.Grabs
import InputLeap.Client.ClipboardOptions
import InputLeap.Client.OptionLists
import InputLeap.Config.Edit
import InputLeap.Ipc.Endpoints
import InputLeap.Ipc.Links
import InputLeap.LTS.Search
import InputLeap.Server.NeighborSearch
import InputLeap.Server.RefusedSwitch
import InputLeap.Server.Landing
import InputLeap.Net.WriteStream
import InputLeap.Net.InputReady
import InputLeap.Server.DoubleTap
import InputLeap.Platform.XWindowsClipboard
import InputLeap.Platform.SelectionReplies
import InputLeap.Platform.SelectionDelivery
import InputLeap.App.QuitEvents
import InputLeap.Maps.Multimap
import InputLeap.Maps.Nearest
import InputLeap.Keyboard.KeyMap
import InputLeap.Keyboard.ModifierState
import InputLeap.Keyboard.MapKey
import InputLeap.Keyboard.ModifierSwitching
import InputLeap.Keyboard.RestoredModifiers
import InputLeap.Keyboard.MappedKey
import InputLeap.Maps.Table
import InputLeap.Keyboard.FakeKeys
import InputLeap.Keyboard.ActiveModifiers
import InputLeap.Keyboard.KeyState
import InputLeap.Keyboard.ServerKeys
import InputLeap.Keyboard.HeldKeys
import InputLeap.Config.KeystrokeText
import InputLeap.Net.Slice
import InputLeap.Clipboard.Unmarshall
import InputLeap.Clipboard.RoundTrip
import InputLeap.Net.Reader
import InputLeap.FileClip.Codec
import InputLeap.Transfer.ClipboardSending
import InputLeap.Transfer.Interrupt
import InputLeap.Client.SkippedSends
import InputLeap.Clipboard.SizeLimit
import InputLeap.Unicode.Basic
import InputLeap.Unicode.Utf8
import InputLeap.Unicode.Units
import InputLeap.Unicode.Resync
import InputLeap.Unicode.RoundTrip
import InputLeap.Unicode.ByteOrder
import InputLeap.Platform.QuoteArgument
import InputLeap.Text.Sprintf
import InputLeap.Text.Find
import InputLeap.App.CommandString
import InputLeap.Text.Hex
import InputLeap.Net.FingerprintDatabase
import InputLeap.Server.RecvInfo
import InputLeap.Server.MirrorMotion
import InputLeap.Num.Binary
import InputLeap.Gui.LinkStretch
import InputLeap.Transfer.DragInformation
import InputLeap.Net.TlsRead
import InputLeap.Platform.SelectionTargets
import InputLeap.Text.Surrounded
import InputLeap.Server.KeyScreens
import InputLeap.Net.ByteQueue
import InputLeap.Maps.FreeIds
import InputLeap.Base.EventQueue
import InputLeap.Maps.Heap
import InputLeap.Base.Timers
import InputLeap.Text.Search
import InputLeap.Platform.HtmlFormat
import InputLeap.Num.LittleEndian
import InputLeap.Platform.Bitmap
import InputLeap.FileClip.Received
import InputLeap.Platform.SelectionReceive
import InputLeap.Text.Before
import InputLeap.Platform.WindowsText
import InputLeap.Maps.Nodes
import InputLeap.Net.SocketMultiplexer
import InputLeap.Net.Conversation
import InputLeap.Net.Written
import InputLeap.Net.Dialect
import InputLeap.Net.ServerCalls
import InputLeap.Net.ClientCalls
import InputLeap.Session.Basic
import InputLeap.Session.Order
import InputLeap.Session.Acks
import InputLeap.Session.Streams
import InputLeap.Maps.Growth
import InputLeap.Platform.HotKeys
import InputLeap.Server.InputFilter
import InputLeap.Server.KeyOwners
import InputLeap.Transfer.ClipboardLink
import InputLeap.LTS.InFlight
import InputLeap.Session.KeepAlive
import InputLeap.Session.Alive
import InputLeap.Session.Silence
