-- SUMMARY: What the functions that set up sockets leave behind on each way out (tutorials 04 and 08 to 14, ssl_client_server.c, server_socket.h).
import LinuxNet.Base.Cleanup

/-! # Ways out

Each function is the tree of its calls, with the loop it serves in, or talks to the
server in. The sockets and the sessions of accepted clients, other than the one client
of 11, and reports that lead nowhere, are left out. -/

namespace LinuxNet.WaysOut

open Cleanup

inductive Resource
  | addrServer
  | sockServer
  | sockClient
  | sslContext
  | ssl
  | info
  deriving DecidableEq, Repr

open Resource

abbrev Function := Prog Resource

/-! ## Calls -/

/-- `report_error`, or the print to stderr that it stands for. -/
def report (message : String) (rest : Function) : Function := .call ⟨message, []⟩ rest

def getprotobyname (message : String) (rest : Function) : Function :=
  .check ⟨⟨"getprotobyname", []⟩, none⟩ (report message .ret) rest

def getaddrinfo (message : String) (rest : Function) : Function :=
  .check ⟨⟨"getaddrinfo", []⟩, some addrServer⟩ (report message .ret) rest

/-- A socket of the family and type of the first address. -/
def socket (sock : Resource) (failed rest : Function) : Function :=
  .check ⟨⟨"socket", [addrServer]⟩, some sock⟩ failed rest

def freeaddrinfo (rest : Function) : Function := .free "freeaddrinfo" addrServer rest

def close (sock : Resource) (rest : Function) : Function := .free "close" sock rest

/-! ## TCP servers -/

structure ServerMessages where
  proto : String := "TCP protocol is not supported"
  resolve : String := "Server getaddrinfo() failed"
  socket : String := "Server socket() failed"
  bind : String := "Server bind() failed"
  listen : String := "Server listen() failed"

/-- From the protocol to `listen`. `options` is called on the socket, and `cleanup` is
what is done about a failure after that. -/
def listening (m : ServerMessages) (options : List String) (cleanup rest : Function) : Function :=
  getprotobyname m.proto <|
  getaddrinfo m.resolve <|
  socket sockServer (report m.socket <| freeaddrinfo .ret) <|
  options.foldr (fun name rest => .call ⟨name, [sockServer]⟩ rest) <|
  .each ⟨"bind", [sockServer, addrServer]⟩ (report m.bind cleanup) <|
  .check ⟨⟨"listen", [sockServer]⟩, none⟩ (report m.listen cleanup) rest

/-- `freeaddrinfo(addr_server); close(sock_server);` -/
def freeAndClose : Function := freeaddrinfo <| close sockServer .ret

/-- `close(sock_server); freeaddrinfo(addr_server);` -/
def closeAndFree : Function := close sockServer <| freeaddrinfo .ret

/-- `run_server` of 08_simple_client_server.c -/
def simpleServer : Function :=
  listening { resolve := "Can not resolve server hostname" } ["setsockopt"] closeAndFree <|
  .forever ⟨"accept", [sockServer]⟩

/-- `run_server` of 09_multithread_client_server.c -/
def multithreadServer : Function :=
  listening { resolve := "Can not resolve server hostname" } ["setsockopt"] freeAndClose <|
  .forever ⟨"accept", [sockServer]⟩

/-- `run_server` of 11_non_blocking_sockets.c. One client is accepted, and never given up. -/
def nonBlockingServer : Function :=
  listening {} ["fcntl"] freeAndClose <|
  .loop ⟨"accept", [sockServer]⟩ <|
  .check ⟨⟨"accept", [sockServer]⟩, some sockClient⟩
    (report "Server accept() failed" <| close sockServer <| .call ⟨"close", []⟩ <| freeaddrinfo .ret) <|
  .call ⟨"fcntl", [sockClient]⟩ <|
  .loop ⟨"recv", [sockClient]⟩ <|
  report "Server recv() failed" <|
  close sockServer <| close sockClient <| freeaddrinfo .ret

/-- `run_server` of 12_multiplexing_select_client_server.c -/
def selectServer : Function :=
  listening {} ["fcntl"] freeAndClose <|
  .forever ⟨"select", [sockServer]⟩

/-- `run_server` of 13_multiplexing_poll_client_server.c -/
def pollServer : Function :=
  listening {} ["fcntl"] freeAndClose <|
  .loop ⟨"poll", [sockServer]⟩ <|
  report "Server poll() failed" freeAndClose

/-! ## TCP clients -/

structure ClientMessages where
  proto : String := "TCP protocol is not available"
  resolve : String := "Can not resolve hostname"
  socket : String := "Client socket() failed"
  connect : String := "Client connect() failed"

/-- From the protocol to `connect`. `cleanup` is what is done where that fails. -/
def connecting (m : ClientMessages) (cleanup rest : Function) : Function :=
  getprotobyname m.proto <|
  getaddrinfo m.resolve <|
  socket sockClient (report m.socket <| freeaddrinfo .ret) <|
  .each ⟨"connect", [sockClient, addrServer]⟩ (report m.connect cleanup) rest

def freeAndCloseClient : Function := freeaddrinfo <| close sockClient .ret

def closeAndFreeClient : Function := close sockClient <| freeaddrinfo .ret

/-- `run_client` of 08_simple_client_server.c -/
def simpleClient : Function :=
  connecting ⟨"TCP protocol is not supported", "Failed to resolve hostname", "client socket() failed",
    "client connect() failed"⟩ closeAndFreeClient <|
  .loop ⟨"send, recv", [sockClient]⟩ closeAndFreeClient

/-- `run_client` of 09, 12 and 13. -/
def interactiveClient : Function :=
  connecting {} freeAndCloseClient <|
  .loop ⟨"send, recv", [sockClient]⟩ freeAndCloseClient

/-- `run_client` of 11_non_blocking_sockets.c -/
def nonBlockingClient : Function :=
  connecting { proto := "TCP protocol is not supported", resolve := "Server getaddrinfo() failed" }
    freeAndCloseClient <|
  .loop ⟨"send, recv", [sockClient]⟩ freeAndCloseClient

/-! ## UDP -/

/-- `run_server` of 10_peer_to_peer_client_server.c -/
def peerServer : Function :=
  getprotobyname "UDP protocol is not supported" <|
  getaddrinfo "Server can not resolve hostname" <|
  socket sockServer (report "Server socket() failed" <| freeaddrinfo .ret) <|
  .each ⟨"bind", [sockServer, addrServer]⟩ (report "Server bind() failed" freeAndClose) <|
  .forever ⟨"recvfrom, sendto", [sockServer]⟩

/-- `run_client` of 10. The address of the server is sent to, and received into. -/
def peerClient : Function :=
  getprotobyname "UDP protocol is not supported" <|
  getaddrinfo "Client can not resolve hostname" <|
  socket sockClient (report "Client socket() failed" <| freeaddrinfo .ret) <|
  .loop ⟨"sendto, recvfrom", [sockClient, addrServer]⟩ freeAndCloseClient

/-- `SSL_shutdown` sends a message on the socket of the session. -/
def sslShutdown (sock : Resource) (rest : Function) : Function :=
  .call ⟨"SSL_shutdown", [ssl, sock]⟩ <| .free "SSL_free" ssl rest

/-- These leave nothing behind, whatever their calls return, and use nothing that they have
given back. -/
def tidyFunctions : List Function :=
  [simpleServer, simpleClient, multithreadServer, peerServer, peerClient, nonBlockingServer,
    nonBlockingClient, selectServer, pollServer, interactiveClient]

theorem tidyFunctions_tidy : ∀ f ∈ tidyFunctions, f.Tidy := by
  have hends : ∀ f ∈ tidyFunctions, ∀ x ∈ f.exits .returned .start, x.1.Tidy x.2 := by decide
  exact fun f hf => f.tidy_iff.2 (hends f hf)

theorem tidyFunctions_tidy_pollServer : pollServer.Tidy :=
  tidyFunctions_tidy pollServer (by simp [tidyFunctions])

end LinuxNet.WaysOut
