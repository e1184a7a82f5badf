import ModbusSim.Client.Reconnect
import ModbusSim.Client.Concurrent
import ModbusSim.Server.Log
import ModbusSim.Server.Output
import ModbusSim.Cli.Commands
import ModbusSim.Frame.ResponseCodec
import ModbusSim.Store.Device
import ModbusSim.Dispatch.Reference
import ModbusSim.Dispatch.Agreement
import ModbusSim.Dispatch.Independence
import ModbusSim.Server.Tasks
import ModbusSim.Server.Stream
import ModbusSim.Server.Isolation
import ModbusSim.Server.Progress
import ModbusSim.Server.Alone
import ModbusSim.Setup.History
import ModbusSim.Setup.Built
import ModbusSim.Setup.Steady
import ModbusSim.Setup.Accepted
import ModbusSim.Server.Telemetry
import ModbusSim.Network.Returns
import ModbusSim.Network.Visible
