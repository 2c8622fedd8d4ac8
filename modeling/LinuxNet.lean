import LinuxNet.AcceptedDescriptors
import LinuxNet.Base.Substring
import LinuxNet.Base.Transfer
import LinuxNet.Broadcast.Participants
import LinuxNet.CommandServer.Matching
import LinuxNet.CommandServer.Release
import LinuxNet.Curl.MultiHandle
import LinuxNet.FetchedPage
import LinuxNet.HttpClient.Buffer
import LinuxNet.HttpClient.Fetch
import LinuxNet.HttpClient.FinalResponse
import LinuxNet.HttpClient.FirstRequest
import LinuxNet.HttpClient.Sending
import LinuxNet.HttpClient.Target
import LinuxNet.HttpServer.Dispatch
import LinuxNet.HttpServer.Framing
import LinuxNet.HttpServer.HeaderCase
import LinuxNet.HttpServer.LineEndings
import LinuxNet.HttpServer.Pages
import LinuxNet.HttpServer.Received
import LinuxNet.HttpServer.Segmented
import LinuxNet.HttpServer.Serialisation
import LinuxNet.HttpServer.Service
import LinuxNet.HttpServer.Setup
import LinuxNet.HttpsClient.Release
import LinuxNet.HttpsClient.Response
import LinuxNet.NonBlockingServer.Sessions
import LinuxNet.OpenSslServer.Dialogue
import LinuxNet.OpenSslServer.Skipped
import LinuxNet.OpenSslServer.WantRead
import LinuxNet.Peer.Exchange
import LinuxNet.PingPong
import LinuxNet.PollServer.Dialogue
import LinuxNet.PollServer.Starvation
import LinuxNet.PongServer.Dialogue
import LinuxNet.ReceiveBuffers
import LinuxNet.SelectServer.FailedSelect
import LinuxNet.SelectServer.FdSet
import LinuxNet.ThreadServer.Alone
import LinuxNet.ThreadServer.Overtaking
import LinuxNet.ThreadServer.Wait
import LinuxNet.TimerServer.Capacity
import LinuxNet.TimerServer.Failure
import LinuxNet.TimerServer.FdBufferRefinement
import LinuxNet.TimerServer.Isolation
import LinuxNet.TimerServer.Pass
import LinuxNet.TimerServer.SecondInsertion
import LinuxNet.TimerServer.Timeout
import LinuxNet.UdpPing.Exchange
import LinuxNet.WaysOut
