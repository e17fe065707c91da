import Orion68.Dhcp.Parser

namespace Orion68.DhcpRoundTrip

open Memory DhcpClient DhcpParser TypeLength

variable {msgType : UInt8} {mac hostname : List UInt8} {ids : Option (List UInt8 × List UInt8)}

/-- The two options that only a REQUEST has. -/
def opcoesRequest (msgType : UInt8) : Option (List UInt8 × List UInt8) → List (UInt8 × List UInt8)
  | some (reqIp, serverIp) => if msgType = DHCP_REQUEST then [(50, reqIp), (54, serverIp)] else []
  | none => []

def opcoes (msgType : UInt8) (hostname : List UInt8) (ids : Option (List UInt8 × List UInt8)) :
    List (UInt8 × List UInt8) :=
  [(53, [msgType])] ++ opcoesRequest msgType ids ++ [(12, hostname), (55, [1, 3, 6])]

/-- What `server_ip` is after the packet has been parsed, if it has been `out` before. -/
def servidor (msgType : UInt8) (ids : Option (List UInt8 × List UInt8)) (out : Option (List UInt8)) :
    Option (List UInt8) :=
  match ids with
  | some (_, serverIp) => if msgType = DHCP_REQUEST then out.map fun _ => serverIp else out
  | none => out

def cabecalho (xid : UInt32) (mac : List UInt8) : List UInt8 :=
  [1, 1, 6, 0] ++ bytes32 xid ++ [0x00, 0x00, 0x80, 0x00] ++ List.replicate 16 0 ++ mac.take 6 ++
    List.replicate 202 0 ++ bytes32 0x63825363

theorem length_cabecalho (xid : UInt32) (h : mac.length = 6) : (cabecalho xid mac).length = 240 := by
  have hfour (x : UInt32) : (bytes32 x).length = 4 := rfl
  simp only [cabecalho, List.length_append, List.length_cons, List.length_nil, List.length_replicate,
    List.length_take, hfour, h]
  rfl

def Enderecos (ids : Option (List UInt8 × List UInt8)) : Prop :=
  ∀ reqIp serverIp, ids = some (reqIp, serverIp) → reqIp.length = 4 ∧ serverIp.length = 4

theorem encodable_of {code : UInt8} {vs : List UInt8} (hff : code ≠ 0xFF) (hzero : code ≠ 0) (hlen : vs.length ≤ 255) :
    Encodable formato UInt8.ofNat (code, vs) :=
  ⟨hff, hzero, UInt8.toNat_ofNat_of_lt (Nat.lt_succ_of_le hlen)⟩

theorem encodable_opcoes (hids : Enderecos ids) (hlen : hostname.length ≤ 255) :
    ∀ o ∈ opcoes msgType hostname ids, Encodable formato UInt8.ofNat o := by
  have hrequest : ∀ o ∈ opcoesRequest msgType ids, Encodable formato UInt8.ofNat o := by
    cases ids with
    | none => exact fun o ho => by cases ho
    | some r =>
        obtain ⟨hreq, hserver⟩ := hids r.1 r.2 rfl
        rw [opcoesRequest]
        split
        next =>
          rw [List.forall_mem_cons, List.forall_mem_singleton]
          exact ⟨encodable_of (by decide) (by decide) (by omega), encodable_of (by decide) (by decide) (by omega)⟩
        next => exact fun o ho => by cases ho
  rw [opcoes, List.forall_mem_append, List.forall_mem_append, List.forall_mem_singleton, List.forall_mem_cons,
    List.forall_mem_singleton]
  exact ⟨⟨encodable_of (by decide) (by decide) (Nat.le_add_left 1 254), hrequest⟩,
    encodable_of (by decide) (by decide) hlen, encodable_of (by decide) (by decide) (Nat.le_add_left 3 252)⟩

/-- The packet of `enviar_pacote_dhcp`, up to what fills it up to 300 bytes. -/
def semEnchimento (msgType : UInt8) (xid : UInt32) (mac hostname : List UInt8)
    (ids : Option (List UInt8 × List UInt8)) : List UInt8 :=
  cabecalho xid mac ++ encode UInt8.ofNat (opcoes msgType hostname ids) ++ [0xFF]

theorem enviar_eq (msgType : UInt8) (xid : UInt32) (mac : List UInt8) (s : Cliente) (hids : Enderecos ids)
    (hlen : hostname.length ≤ 255) :
    (enviarPacoteDhcp msgType xid mac hostname ids s).enviados = s.enviados ++
      [semEnchimento msgType xid mac hostname ids ++
        List.replicate (300 - (semEnchimento msgType xid mac hostname ids).length) 0] := by
  have hhost : hostname.take (UInt8.ofNat hostname.length).toNat = hostname := by
    rw [UInt8.toNat_ofNat', Nat.mod_eq_of_lt (by omega), List.take_length]
  have hopt : [53, 1, msgType] ++
      (match ids with
        | some (reqIp, serverIp) => if msgType = DHCP_REQUEST then [50, 4] ++ reqIp ++ [54, 4] ++ serverIp else []
        | none => []) ++
      [12, UInt8.ofNat hostname.length] ++ hostname.take (UInt8.ofNat hostname.length).toNat ++ [55, 3, 1, 3, 6] ++
        [0xFF] = encode UInt8.ofNat (opcoes msgType hostname ids) ++ [0xFF] := by
    rw [hhost]
    cases ids with
    | none => simp [encode, opcoes, opcoesRequest]
    | some r =>
        obtain ⟨hreq, hserver⟩ := hids r.1 r.2 rfl
        dsimp only
        rw [opcoes, opcoesRequest]
        split
        next => simp [encode, hreq, hserver]
        next => simp [encode]
  have hpkt : cabecalho xid mac ++ ([53, 1, msgType] ++
      (match ids with
        | some (reqIp, serverIp) => if msgType = DHCP_REQUEST then [50, 4] ++ reqIp ++ [54, 4] ++ serverIp else []
        | none => []) ++
      [12, UInt8.ofNat hostname.length] ++ hostname.take (UInt8.ofNat hostname.length).toNat ++ [55, 3, 1, 3, 6] ++
        [0xFF]) = semEnchimento msgType xid mac hostname ids := by
    rw [hopt, semEnchimento, List.append_assoc]
  rw [← hpkt]
  rfl

section Parsing

variable {p : List UInt8} {out : Option (List UInt8)} {alem : ℕ → UInt8} {i : ℕ}

/-- What the parser sees of a packet, with what is behind it. -/
def visto (p : List UInt8) (alem : ℕ → UInt8) (j : ℕ) : UInt8 := p.getD j (alem j)

theorem bytes_visto (p : List UInt8) (alem : ℕ → UInt8) (i : ℕ) : bytes (visto p alem) i p.length = p.drop i := by
  apply List.ext_getElem
  · rw [length_bytes, List.length_drop]
  · intro k hk hk'
    rw [List.length_drop] at hk'
    rw [List.getElem_drop]
    simp only [bytes, List.getElem_map, List.getElem_range', Nat.one_mul]
    exact List.getD_eq_getElem p _ (by omega)

theorem parse_encode {os : List (UInt8 × List UInt8)} {rest : List UInt8}
    (hos : ∀ o ∈ os, Encodable formato UInt8.ofNat o)
    (hp : p.drop OFF_OPTIONS = encode UInt8.ofNat os ++ 0xFF :: rest) (hlt : p.length < 65536) (alem : ℕ → UInt8)
    (out : Option (List UInt8)) :
    options formato (p.drop OFF_OPTIONS) = os ∧
      ∃ n t, parseDhcpOptions (visto p alem) (UInt16.ofNat p.length) out n = some t ∧
        (∀ j ∈ t.lidos, j < p.length) ∧ t.achado = os.foldl aplica (0, out) := by
  have hopt : options formato (p.drop OFF_OPTIONS) = os := by
    rw [hp, options_encode hos]
    exact (congrArg (os ++ ·) (options_stop rest)).trans (List.append_nil os)
  have hcut : cut formato (p.drop OFF_OPTIONS) = [] := by
    rw [hp, cut_encode hos]
    exact cut_stop rest
  have hn : (UInt16.ofNat p.length).toNat = p.length := by
    rw [UInt16.toNat_ofNat', Nat.mod_eq_of_lt hlt]
  have hbytes : bytes (visto p alem) 240 (UInt16.ofNat p.length).toNat = p.drop OFF_OPTIONS := by
    rw [hn]
    exact bytes_visto p alem 240
  have hacaba : Acaba (visto p alem) (UInt16.ofNat p.length).toNat out.isSome 240
      (options formato (bytes (visto p alem) 240 (UInt16.ofNat p.length).toNat)) := .inteira (hbytes.symm ▸ hcut)
  obtain ⟨n, t, hparse, hlidos, hfound⟩ := hacaba.correto rfl
  rw [hbytes, hopt] at hfound
  rw [hn] at hlidos
  exact ⟨hopt, n, t, hparse, hlidos, hfound⟩

theorem foldl_opcoes (msgType : UInt8) (hostname : List UInt8) (hids : Enderecos ids) (out : Option (List UInt8)) :
    (opcoes msgType hostname ids).foldl aplica (0, out) = (msgType, servidor msgType ids out) := by
  cases ids with
  | none => simp [opcoes, opcoesRequest, servidor, aplica]
  | some r =>
      obtain ⟨hreq, hserver⟩ := hids r.1 r.2 rfl
      rw [opcoes, opcoesRequest, servidor]
      split
      next => simp [aplica, hreq, hserver]
      next => simp [aplica]

/-- A packet that is sent and parsed: the parser ends, reads nothing behind it, passes exactly the
options that were written, and returns the type and the server. -/
theorem dhcp_round_trip (msgType : UInt8) (xid : UInt32) (alem : ℕ → UInt8) (out : Option (List UInt8)) (s : Cliente)
    (hmac : mac.length = 6) (hids : Enderecos ids)
    (hfit : hostname.length ≤ 255 ∧ (semEnchimento msgType xid mac hostname ids).length ≤ 320) :
    ∃ p, (enviarPacoteDhcp msgType xid mac hostname ids s).enviados = s.enviados ++ [p] ∧ p.length ≤ 320 ∧
      options formato (p.drop OFF_OPTIONS) = opcoes msgType hostname ids ∧
      ∃ n t, parseDhcpOptions (visto p alem) (UInt16.ofNat p.length) out n = some t ∧
        (∀ j ∈ t.lidos, j < p.length) ∧ t.msgType = msgType ∧ t.serverIp = servidor msgType ids out := by
  obtain ⟨hlen, hfit⟩ := hfit
  have hsent := enviar_eq msgType xid mac s hids hlen
  have hcab : (cabecalho xid mac).length = OFF_OPTIONS := length_cabecalho xid hmac
  have hdrop (z : ℕ) : (semEnchimento msgType xid mac hostname ids ++ List.replicate z 0).drop OFF_OPTIONS =
      encode UInt8.ofNat (opcoes msgType hostname ids) ++ 0xFF :: List.replicate z 0 := by
    rw [semEnchimento, List.append_assoc, List.append_assoc, List.drop_left' hcab, List.singleton_append]
  have hsize : (semEnchimento msgType xid mac hostname ids ++
      List.replicate (300 - (semEnchimento msgType xid mac hostname ids).length) 0).length ≤ 320 := by
    rw [List.length_append, List.length_replicate]
    omega
  have hencodable : ∀ o ∈ opcoes msgType hostname ids, Encodable formato UInt8.ofNat o := encodable_opcoes hids hlen
  obtain ⟨hopt, n, t, hparse, hlidos, hfound⟩ :=
    parse_encode hencodable (hdrop _) (Nat.lt_of_le_of_lt hsize (by decide)) alem out
  rw [foldl_opcoes msgType hostname hids] at hfound
  obtain ⟨hmsg, hserver⟩ := Prod.mk.inj hfound
  exact ⟨_, hsent, hsize, hopt, n, t, hparse, hlidos, hmsg, hserver⟩

theorem dhcp_round_trip_request :
    ∃ p, (enviarPacoteDhcp DHCP_REQUEST 0x39000001 DhcpClient.mac [54, 4, 255] (some ([50, 0, 255, 54], [10, 53, 1, 2]))
        ⟨⟨fun _ => 0, 0, 0⟩, fun _ => 0, fun _ => 0, []⟩).enviados = [] ++ [p] ∧ p.length ≤ 320 ∧
      options formato (p.drop OFF_OPTIONS) =
        opcoes DHCP_REQUEST [54, 4, 255] (some ([50, 0, 255, 54], [10, 53, 1, 2])) ∧
      ∃ n t, parseDhcpOptions (visto p fun _ => 0) (UInt16.ofNat p.length) (some [0, 0, 0, 0]) n = some t ∧
        (∀ j ∈ t.lidos, j < p.length) ∧ t.msgType = DHCP_REQUEST ∧
        t.serverIp = servidor DHCP_REQUEST (some ([50, 0, 255, 54], [10, 53, 1, 2])) (some [0, 0, 0, 0]) := by
  refine dhcp_round_trip DHCP_REQUEST 0x39000001 (fun _ => 0) (some [0, 0, 0, 0]) ⟨⟨fun _ => 0, 0, 0⟩, fun _ => 0,
    fun _ => 0, []⟩ rfl ?_ ⟨by decide, by decide +kernel⟩
  rintro _ _ ⟨⟩
  exact ⟨rfl, rfl⟩

end Parsing

end Orion68.DhcpRoundTrip
