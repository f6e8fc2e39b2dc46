import WgManager.Models
import WgManager.Lib.Lines

/-!
# Rendering the WireGuard configurations

`wireguard.py` builds the configurations by plain text interpolation.  The hub's has one
`[Interface]` section for the server, then one `[Peer]` section for each client, in the order of the
list; that of a client has the hub as its only peer.
-/

set_option autoImplicit false

namespace WgManager

/-- The text of a client's address column. -/
def Client.addressText (client : Client) : String :=
  (client.address.map IPv4Interface.text).getD ""

theorem addressText_chars (client : Client) : ∀ d ∈ client.addressText.toList,
    isAddressChar d = true := by
  intro d hd
  rw [Client.addressText] at hd
  cases haddress : client.address with
  | none => simp [haddress] at hd
  | some address =>
    rw [haddress] at hd
    exact isAddressChar_of_mem_interface hd

/-- `_SERVER_INTERFACE_TEMPLATE` filled in for `server`.  The private key stays a placeholder that
the host substitutes. -/
def serverInterfaceSection (server : Server) : String :=
  let address := server.address.text
  let listenPort := server.endpointPort
  let interface := server.interface
  let subnet := server.subnet.text
  "[Interface]\n" ++
  s!"Address = {address}\n" ++
  s!"ListenPort = {listenPort}\n" ++
  "PrivateKey = $(cat /etc/wireguard/privatekey)\n" ++
  s!"PostUp = iptables -A FORWARD -i {interface} -j ACCEPT; " ++
    s!"iptables -A FORWARD -o {interface} -j ACCEPT; " ++
    s!"iptables -t nat -A POSTROUTING -s {subnet} -o eth0 -j MASQUERADE\n" ++
  s!"PostDown = iptables -D FORWARD -i {interface} -j ACCEPT; " ++
    s!"iptables -D FORWARD -o {interface} -j ACCEPT; " ++
    s!"iptables -t nat -D POSTROUTING -s {subnet} -o eth0 -j MASQUERADE\n"

/-- `_SERVER_PEER_TEMPLATE` filled in for one client. -/
def serverPeerSection (peer : Client) : String :=
  let name := peer.name
  let publicKey := peer.publicKey
  let allowedIps := peer.addressText
  s!"\n[Peer]\n# {name}\nPublicKey = {publicKey}\nAllowedIPs = {allowedIps}\n"

theorem serverPeerSection_toList (peer : Client) : (serverPeerSection peer).toList =
    "\n[Peer]\n# ".toList ++ peer.name.toList ++ "\nPublicKey = ".toList ++ peer.publicKey.toList ++
      "\nAllowedIPs = ".toList ++ peer.addressText.toList ++ "\n".toList := by
  delta serverPeerSection
  simp only [String.toList_append]
  rfl

/-- `_render_server_config`. -/
def renderServerConfig (server : Server) (clients : List Client) : String :=
  clients.foldl (fun body peer ↦ body ++ serverPeerSection peer) (serverInterfaceSection server)

/-- The configuration of a hub is its `[Interface]` section and then the sections of its peers. -/
theorem renderServerConfig_toList (server : Server) (clients : List Client) :
    (renderServerConfig server clients).toList =
      (serverInterfaceSection server).toList ++
        clients.flatMap fun peer ↦ (serverPeerSection peer).toList := by
  have hfold (body : String) : (clients.foldl (fun body peer ↦ body ++ serverPeerSection peer)
      body).toList = body.toList ++ clients.flatMap fun peer ↦ (serverPeerSection peer).toList := by
    induction clients generalizing body with
    | nil => simp
    | cons peer clients ih =>
      rw [List.foldl_cons, ih, String.toList_append, List.flatMap_cons, List.append_assoc]
  exact hfold _

/-- The `[Peer]` section that the two client templates share. -/
def hubPeerSection (server : Server) : String :=
  let subnet := server.subnet.text
  s!"\n[Peer]\nPublicKey = {server.publicKey}\n" ++
  s!"Endpoint = {server.endpointHost}:{server.endpointPort}\nAllowedIPs = {subnet}\n" ++
  "PersistentKeepalive = 25\n"

/-- `render_manual_client_config`; `none` is a `ValueError`. -/
def renderManualClientConfig (client : Client) (server : Server) (privateKey : String) :
    Option String :=
  if !client.isManual || privateKey = "" then none
  else
    let address := client.addressText
    some (s!"[Interface]\nPrivateKey = {privateKey}\nAddress = {address}\n" ++
      hubPeerSection server)

/-- `render_enrolled_client_config`. -/
def renderEnrolledClientConfig (client : Client) (server : Server) : String :=
  let address := client.addressText
  s!"[Interface]\nAddress = {address}\n" ++
  "PostUp = wg set %i private-key /etc/wireguard/privatekey\n" ++ hubPeerSection server

/-- `_CLIENT_CONF_TEMPLATE` filled in, as `provision_client` does. -/
def renderClientConfig (client : Client) (server : Server) : String :=
  let address := client.addressText
  s!"[Interface]\nAddress = {address}\n" ++
  "PrivateKey = $(cat /etc/wireguard/privatekey)\n" ++ hubPeerSection server

/-! ## The configurations line by line -/

section

open Lines

/-- An interpolated text stands as it is. -/
theorem toString_string (text : String) : toString text = text := rfl

/-- An `iptables` line of a hub, with the texts around its fields. -/
def forwardLine (first second third : String) (server : Server) : List Char :=
  first.toList ++ (server.interface.toList ++ (second.toList ++ (server.interface.toList ++
    (third.toList ++ (server.subnet.text.toList ++ " -o eth0 -j MASQUERADE".toList)))))

def postUpLine : Server → List Char :=
  forwardLine "PostUp = iptables -A FORWARD -i " " -j ACCEPT; iptables -A FORWARD -o "
    " -j ACCEPT; iptables -t nat -A POSTROUTING -s "

def postDownLine : Server → List Char :=
  forwardLine "PostDown = iptables -D FORWARD -i " " -j ACCEPT; iptables -D FORWARD -o "
    " -j ACCEPT; iptables -t nat -D POSTROUTING -s "

/-- The lines of the `[Interface]` section of a hub, as far as the fields do not add any. -/
def serverInterfaceLines (server : Server) : List (List Char) :=
  ["[Interface]".toList,
   "Address = ".toList ++ server.address.text.toList,
   "ListenPort = ".toList ++ (toString server.endpointPort).toList,
   "PrivateKey = $(cat /etc/wireguard/privatekey)".toList,
   postUpLine server,
   postDownLine server]

/-- The lines of the `[Peer]` section of a client. -/
def serverPeerLines (peer : Client) : List (List Char) :=
  [[],
   "[Peer]".toList,
   "# ".toList ++ peer.name.toList,
   "PublicKey = ".toList ++ peer.publicKey.toList,
   "AllowedIPs = ".toList ++ peer.addressText.toList]

theorem serverInterfaceSection_toList (server : Server) :
    (serverInterfaceSection server).toList = unlines (serverInterfaceLines server) := by
  have h₁ : "[Interface]\n" = "[Interface]" ++ "\n" := rfl
  have h₂ : "PrivateKey = $(cat /etc/wireguard/privatekey)\n" =
      "PrivateKey = $(cat /etc/wireguard/privatekey)" ++ "\n" := rfl
  have h₃ : " -o eth0 -j MASQUERADE\n" = " -o eth0 -j MASQUERADE" ++ "\n" := rfl
  have h₄ : " -j ACCEPT; iptables -A FORWARD -o " =
      " -j ACCEPT; " ++ "iptables -A FORWARD -o " := rfl
  have h₅ : " -j ACCEPT; iptables -t nat -A POSTROUTING -s " =
      " -j ACCEPT; " ++ "iptables -t nat -A POSTROUTING -s " := rfl
  have h₆ : " -j ACCEPT; iptables -D FORWARD -o " =
      " -j ACCEPT; " ++ "iptables -D FORWARD -o " := rfl
  have h₇ : " -j ACCEPT; iptables -t nat -D POSTROUTING -s " =
      " -j ACCEPT; " ++ "iptables -t nat -D POSTROUTING -s " := rfl
  have h₈ : "\n".toList = ['\n'] := rfl
  unfold serverInterfaceSection serverInterfaceLines postUpLine postDownLine forwardLine unlines
  simp only [-String.reduceAppend, -String.reduceToList, h₁, h₂, h₃, h₄, h₅, h₆, h₇,
    toString_string, String.toList_append, h₈, List.flatMap_cons, List.flatMap_nil,
    List.append_assoc, List.append_nil]

theorem serverPeerSection_unlines (peer : Client) :
    (serverPeerSection peer).toList = unlines (serverPeerLines peer) := by
  have h₁ : "\n[Peer]\n# " = "\n" ++ "[Peer]" ++ "\n" ++ "# " := rfl
  have h₂ : "\nPublicKey = " = "\n" ++ "PublicKey = " := rfl
  have h₃ : "\nAllowedIPs = " = "\n" ++ "AllowedIPs = " := rfl
  have h₄ : "\n".toList = ['\n'] := rfl
  rw [serverPeerSection_toList]
  unfold serverPeerLines unlines
  simp only [-String.reduceAppend, -String.reduceToList, h₁, h₂, h₃, String.toList_append, h₄,
    List.flatMap_cons, List.flatMap_nil, List.append_assoc, List.append_nil, List.nil_append]

theorem renderServerConfig_unlines (server : Server) (clients : List Client) :
    (renderServerConfig server clients).toList =
      unlines (serverInterfaceLines server ++ clients.flatMap serverPeerLines) := by
  rw [renderServerConfig_toList, unlines_append, serverInterfaceSection_toList]
  congr 1
  induction clients with
  | nil => rfl
  | cons peer clients ih =>
    rw [List.flatMap_cons, List.flatMap_cons, unlines_append, ih, serverPeerSection_unlines]

/-- The lines of a client's configuration. -/
def clientConfigLines (client : Client) (server : Server) : List (List Char) :=
  ["[Interface]".toList,
   "Address = ".toList ++ client.addressText.toList,
   "PrivateKey = $(cat /etc/wireguard/privatekey)".toList,
   [],
   "[Peer]".toList,
   "PublicKey = ".toList ++ server.publicKey.toList,
   "Endpoint = ".toList ++ (server.endpointHost.toList ++
     (":".toList ++ (toString server.endpointPort).toList)),
   "AllowedIPs = ".toList ++ server.subnet.text.toList,
   "PersistentKeepalive = 25".toList]

theorem renderClientConfig_unlines (client : Client) (server : Server) :
    (renderClientConfig client server).toList = unlines (clientConfigLines client server) := by
  have h₁ : "[Interface]\nAddress = " = "[Interface]" ++ "\n" ++ "Address = " := rfl
  have h₂ : "PrivateKey = $(cat /etc/wireguard/privatekey)\n" =
      "PrivateKey = $(cat /etc/wireguard/privatekey)" ++ "\n" := rfl
  have h₃ : "\n[Peer]\nPublicKey = " = "\n" ++ "[Peer]" ++ "\n" ++ "PublicKey = " := rfl
  have h₄ : "\nAllowedIPs = " = "\n" ++ "AllowedIPs = " := rfl
  have h₅ : "PersistentKeepalive = 25\n" = "PersistentKeepalive = 25" ++ "\n" := rfl
  have h₆ : "\n".toList = ['\n'] := rfl
  unfold renderClientConfig hubPeerSection clientConfigLines unlines
  simp only [-String.reduceAppend, -String.reduceToList, h₁, h₂, h₃, h₄, h₅, toString_string,
    String.toList_append, h₆, List.flatMap_cons, List.flatMap_nil, List.append_assoc,
    List.append_nil, List.nil_append]

end

end WgManager
