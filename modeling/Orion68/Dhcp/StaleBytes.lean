import Orion68.Dhcp.Options

namespace Orion68.DhcpStaleBytes

open Receiver Shell DhcpClient DhcpOptions

section Buffer

/-- `rx_buf` when these bytes have been received, over what was in its memory. -/
def preenche (b : Sabido) (m : RxBuf) : RxBuf := fun j => (b j.val).getD (m j)

def primeiro (d : List UInt8) : Sabido := fun j => d[j]?

def segundo (d e : List UInt8) : Sabido := fun j => (e[j]?).or d[j]?

theorem copia_eq (d : List UInt8) (m : RxBuf) : copia d m = preenche (primeiro d) m := by
  funext j
  exact List.getD_eq_getElem?_getD

theorem copia_copia_eq (d e : List UInt8) (m : RxBuf) : copia e (copia d m) = preenche (segundo d e) m := by
  funext j
  rw [copia, copia, preenche, segundo, List.getD_eq_getElem?_getD, List.getD_eq_getElem?_getD]
  cases e[j.val]? <;> rfl

theorem inicial_primeiro (d : List UInt8) : Inicial (primeiro d) := by
  intro j k hjk hj
  rw [primeiro, List.getElem?_eq_none_iff] at hj ⊢
  omega

theorem inicial_segundo (d e : List UInt8) : Inicial (segundo d e) := by
  intro j k hjk hj
  obtain ⟨he, hd⟩ := Option.or_eq_none_iff.mp hj
  rw [List.getElem?_eq_none_iff] at he hd
  rw [segundo, Option.or_eq_none_iff, List.getElem?_eq_none_iff, List.getElem?_eq_none_iff]
  omega

/-- Nothing is received behind `rx_buf`. -/
def Cabe (b : Sabido) : Prop := ∀ j, 320 ≤ j → b j = none

theorem cabe_primeiro {d : List UInt8} (hd : d.length ≤ 320) : Cabe (primeiro d) := by
  intro j hj
  rw [primeiro, List.getElem?_eq_none_iff]
  omega

theorem cabe_segundo {d e : List UInt8} (hd : d.length ≤ 320) (he : e.length ≤ 320) : Cabe (segundo d e) := by
  intro j hj
  rw [segundo, Option.or_eq_none_iff, List.getElem?_eq_none_iff, List.getElem?_eq_none_iff]
  omega

end Buffer

section MessageType

variable {b : Sabido} {alem : ℕ → UInt8} {m : RxBuf} {t : UInt8}

/-- The type that the parser finds in `rx_buf`. -/
def tipoLido (b : Sabido) (m : RxBuf) (alem : ℕ → UInt8) : UInt8 :=
  (parseDhcpOptions (vista (preenche b m) alem) 320 [0, 0, 0, 0]).1

def tipoRecebido (b : Sabido) (alem : ℕ → UInt8) : Option UInt8 := tipo (ver b alem) 80 OFF_OPTIONS 0

theorem tipoLido_eq (b : Sabido) (m : RxBuf) (alem : ℕ → UInt8) :
    tipo (total (vista (preenche b m) alem)) 80 OFF_OPTIONS 0 = some (tipoLido b m alem) := tipo_total _ _ _ _ _

theorem vista_of_some (hc : Cabe b) {j : ℕ} {x : UInt8} (hx : b j = some x) : vista (preenche b m) alem j = x := by
  have hj : j < 320 := by
    by_contra hge
    rw [hc j (by omega)] at hx
    cases hx
  rw [vista, dif_pos hj, preenche, hx]
  rfl

theorem contida_vista (hc : Cabe b) : b.Contida (total (vista (preenche b m) alem)) :=
  fun _ _ hx => congrArg some (vista_of_some hc hx)

theorem ver_contida_vista : (ver b alem).Contida (total (vista (preenche b m) alem)) := by
  intro j x hx
  by_cases hj : j < 320
  · rw [ver_of_lt hj] at hx
    rw [total, vista, dif_pos hj, preenche, hx]
    rfl
  · rw [ver_of_ge (by omega)] at hx
    rw [total, vista, dif_neg hj]
    exact hx

theorem tipoLido_of_recebido (h : tipoRecebido b alem = some t) (m : RxBuf) : tipoLido b m alem = t :=
  Option.some.inj ((tipoLido_eq b m alem).symm.trans (tipo_mono ver_contida_vista h))

theorem exists_tipoLido (hb : Inicial b) (hc : Cabe b) (h : tipoRecebido b alem = none) (t : UInt8) :
    ∃ m alem', tipoLido b m alem' = t := by
  obtain ⟨n, i, msgType, hpreso, -, hn, hrest⟩ := tipo_none h (by decide)
  obtain ⟨g, hg⟩ := hpreso.completa hb hn msgType t
  have hvista : vista (preenche b fun j => g j) (completa b g) = completa b g := by
    funext j
    rw [vista]
    split <;> rfl
  refine ⟨fun j => g j, completa b g, ?_⟩
  have hlido := tipoLido_eq b (fun j => g j) (completa b g)
  rw [hrest _ (contida_vista hc), hvista, hg] at hlido
  exact (Option.some.inj hlido).symm

theorem tipoLido_ff (hb : Inicial b) (hc : Cabe b) (h : tipoRecebido b alem = none) :
    ∃ t, ∀ alem', tipoLido b (fun _ => 0xFF) alem' = t := by
  obtain ⟨n, i, msgType, hpreso, hi, -, hrest⟩ := tipo_none h (by decide)
  obtain ⟨t, ht⟩ := hpreso.com_ff hb hi n msgType
  refine ⟨t, fun alem' => ?_⟩
  have hlido := tipoLido_eq b (fun _ => 0xFF) alem'
  rw [hrest _ (contida_vista hc), ht _ (contida_vista hc)] at hlido
  · exact (Option.some.inj hlido).symm
  · intro j hj hnone
    rw [vista, dif_pos hj, preenche, hnone]
    rfl

theorem exists_of_recebido (hb : Inicial b) (h : tipoRecebido b alem = some t) {j : ℕ} (hj : j ≤ OFF_OPTIONS) :
    ∃ x, b j = some x := by
  apply Option.ne_none_iff_exists'.mp
  intro hnone
  have hcodigo := hb j OFF_OPTIONS hj hnone
  have hpasso : passo (ver b alem) OFF_OPTIONS 0 = none := by
    rw [passo, if_neg (by decide), ver_of_lt (by decide), hcodigo]
    rfl
  rw [tipoRecebido, tipo, hpasso] at h
  cases h

end MessageType

section Runs

variable (amb : Ambiente) (xid : UInt32) (hostname : List UInt8) (s : Cliente)

def desfecho (r : Option (ℕ × Cliente)) : Option (ℕ × List UInt8) :=
  r.map fun (result, s) => (result, quatro s.regs W5100_SIPR)

/-- A wait and the packet after it: what is copied of it, or `none` when there is none in time. -/
def recebido (timeoutMs : UInt32) (espera : Espera) (w : W5100) : Option (Option (List UInt8 × W5100)) :=
  (waitRxAtLeast 240 timeoutMs espera w).map fun
    | (false, _) => none
    | (true, w) => some (recvUdpPacket 320 w).2

/-- The outcome is the same whatever was in the memory of `rx_buf`. -/
def SoDosDatagramas : Prop :=
  ∀ (alem1 alem2 : ℕ → UInt8) (m m' : RxBuf),
    desfecho (w5100DhcpRequest amb alem1 alem2 xid hostname { s with rxBuf := m }) =
      desfecho (w5100DhcpRequest amb alem1 alem2 xid hostname { s with rxBuf := m' })

theorem length_recvUdpPacket (w : W5100) : (recvUdpPacket 320 w).2.1.length ≤ 320 := by
  have hrecv (n : UInt16) (w : W5100) : (w.recvBytes n).1.length = n.toNat := by
    rw [W5100.recvBytes, List.length_map, List.length_range]
  rw [recvUdpPacket]
  dsimp only
  generalize (_ : UInt16) ||| _ = dataLen
  split
  next hlt =>
    split
    next => rw [hrecv]; exact Nat.le_of_lt (UInt16.lt_iff_toNat_lt.mp hlt)
    next => exact Nat.zero_le _
  next =>
    split
    next => rw [hrecv]; rfl
    next => exact Nat.zero_le _

theorem chunk_bounds {remaining : UInt16} (h : 0 < remaining) :
    0 < (if remaining < 32 then remaining else 32) ∧
      (if remaining < 32 then remaining else 32) ≤ remaining := by
  split
  next => exact ⟨h, UInt16.le_refl _⟩
  next hge => exact ⟨by decide, UInt16.not_lt.mp hge⟩

theorem descarta_rxRd (n : ℕ) (remaining : UInt16) (w : W5100) (h : remaining.toNat ≤ n) :
    (descarta n remaining w).rxRd = w.rxRd + remaining := by
  induction n generalizing remaining w with
  | zero =>
      obtain rfl : remaining = 0 := UInt16.toNat_inj.mp (Nat.le_zero.mp h)
      exact (UInt16.add_zero _).symm
  | succ n ih =>
      rw [descarta]
      split
      next hpos =>
        obtain ⟨hchunk, hle⟩ := chunk_bounds hpos
        generalize (if remaining < 32 then remaining else 32) = chunk at hchunk hle ⊢
        rw [ih]
        · change w.rxRd + chunk + (remaining - chunk) = w.rxRd + remaining
          rw [UInt16.add_assoc, UInt16.add_comm chunk, UInt16.sub_add_cancel]
        · rw [UInt16.toNat_sub_of_le _ _ hle]
          have hpos' : 0 < chunk.toNat := UInt16.lt_iff_toNat_lt.mp hchunk
          omega
      next hpos =>
        obtain rfl : remaining = 0 := by
          by_contra hne
          exact hpos (UInt16.pos_iff_ne_zero.mpr hne)
        exact (UInt16.add_zero _).symm

theorem recvUdpPacket_rxRd (bufCap : UInt16) (w : W5100) :
    (recvUdpPacket bufCap w).2.2.rxRd = w.rxRd + 8 + (recvUdpPacket bufCap w).1 := by
  rw [recvUdpPacket]
  dsimp only
  generalize (_ : UInt16) ||| _ = dataLen
  have hcopy (toCopy : UInt16) (w : W5100) :
      (if 0 < toCopy then w.recvBytes toCopy else ([], w)).2.rxRd = w.rxRd + toCopy := by
    split
    next => rfl
    next hzero =>
      obtain rfl : toCopy = 0 := by
        by_contra hne
        exact hzero (UInt16.pos_iff_ne_zero.mpr hne)
      exact (UInt16.add_zero _).symm
  rw [descarta_rxRd _ _ _ (Nat.le_refl _), hcopy]
  generalize (if dataLen < bufCap then dataLen else bufCap) = toCopy
  change w.rxRd + 8 + toCopy + (dataLen - toCopy) = _
  rw [UInt16.add_assoc, UInt16.add_comm toCopy, UInt16.sub_add_cancel]

theorem prepara_sipr (aberto : W5100 → W5100) : quatro (prepara aberto s).regs W5100_SIPR = ip := rfl

def desfechoAck (d : List UInt8) (alem : ℕ → UInt8) (m : RxBuf) :
    Option (Option (List UInt8 × W5100)) → Option (ℕ × List UInt8)
  | none => none
  | some none => some (0, ip)
  | some (some pacote) =>
      if tipoLido (segundo d pacote.1) m alem ≠ DHCP_ACK then some (0, ip)
      else some (1, quatro (vista (preenche (segundo d pacote.1) m) alem) OFF_YIADDR)

def desfechoOffer (alem1 alem2 : ℕ → UInt8) (m : RxBuf) :
    Option (Option (List UInt8 × W5100)) → Option (ℕ × List UInt8)
  | none => none
  | some none => some (0, ip)
  | some (some pacote) =>
      if tipoLido (primeiro pacote.1) m alem1 ≠ DHCP_OFFER then some (0, ip)
      else desfechoAck pacote.1 alem2 m (recebido 50000 amb.confirmacao (amb.reaberto pacote.2))

theorem desfecho_conclui (alem : ℕ → UInt8) (b : Sabido) (m : RxBuf) (hm : s.rxBuf = preenche b m)
    (hip : quatro s.regs W5100_SIPR = ip) :
    desfecho (some (conclui alem s)) =
      if tipoLido b m alem ≠ DHCP_ACK then some (0, ip)
      else some (1, quatro (vista (preenche b m) alem) OFF_YIADDR) := by
  rw [conclui, hm]
  change desfecho (some (if tipoLido b m alem ≠ DHCP_ACK then _ else _)) = _
  split
  next => exact congrArg (fun a => some (0, a)) hip
  next => rfl

theorem desfecho_faseRequest (alem : ℕ → UInt8) (offeredIp serverIp d : List UInt8) (m : RxBuf)
    (hm : s.rxBuf = copia d m) :
    desfecho (faseRequest amb alem xid hostname offeredIp serverIp s) =
      desfechoAck d alem m (recebido 50000 amb.confirmacao (amb.reaberto s.w)) := by
  rw [faseRequest, recebido]
  change desfecho ((waitRxAtLeast 240 50000 amb.confirmacao (amb.reaberto s.w)).map _) = _
  cases waitRxAtLeast 240 50000 amb.confirmacao (amb.reaberto s.w) with
  | none => rfl
  | some r =>
      obtain ⟨chegou, w⟩ := r
      cases chegou with
      | false => exact congrArg (fun a => some (0, a)) (prepara_sipr s amb.reaberto)
      | true =>
          refine desfecho_conclui _ alem (segundo d (recvUdpPacket 320 w).2.1) m ?_ (prepara_sipr s amb.reaberto)
          rw [← copia_copia_eq, ← hm]
          rfl

theorem desfecho_requisita (alem1 alem2 : ℕ → UInt8) (d : List UInt8) (m : RxBuf) (hm : s.rxBuf = copia d m)
    (hip : quatro s.regs W5100_SIPR = ip) :
    desfecho (requisita amb alem1 alem2 xid hostname s) =
      if tipoLido (primeiro d) m alem1 ≠ DHCP_OFFER then some (0, ip)
      else desfechoAck d alem2 m (recebido 50000 amb.confirmacao (amb.reaberto s.w)) := by
  have htipo : (parseDhcpOptions (vista s.rxBuf alem1) 320 [0, 0, 0, 0]).1 = tipoLido (primeiro d) m alem1 := by
    rw [hm, copia_eq]
    rfl
  rw [requisita]
  change desfecho (if (parseDhcpOptions (vista s.rxBuf alem1) 320 [0, 0, 0, 0]).1 ≠ DHCP_OFFER then _ else _) = _
  rw [htipo]
  split
  next => exact congrArg (fun a => some (0, a)) hip
  next => exact desfecho_faseRequest amb xid hostname s alem2 _ _ d m hm

theorem desfecho_request (alem1 alem2 : ℕ → UInt8) (m : RxBuf) :
    desfecho (w5100DhcpRequest amb alem1 alem2 xid hostname { s with rxBuf := m }) =
      desfechoOffer amb alem1 alem2 m (recebido 30000 amb.oferta (amb.aberto s.w)) := by
  rw [w5100DhcpRequest, recebido]
  change desfecho ((waitRxAtLeast 240 30000 amb.oferta (amb.aberto s.w)).bind _) = _
  cases waitRxAtLeast 240 30000 amb.oferta (amb.aberto s.w) with
  | none => rfl
  | some r =>
      obtain ⟨chegou, w⟩ := r
      cases chegou with
      | false => exact congrArg (fun a => some (0, a)) (prepara_sipr { s with rxBuf := m } amb.aberto)
      | true =>
          rw [Option.bind_some, Option.map_some]
          exact desfecho_requisita amb xid hostname _ alem1 alem2 (recvUdpPacket 320 w).2.1 m rfl
            (prepara_sipr { s with rxBuf := m } amb.aberto)

end Runs

section TwoRuns

variable {b b' : Sabido} {m m' : RxBuf} {alem1 alem2 : ℕ → UInt8}

def Sucesso (b b' : Sabido) (m : RxBuf) (alem1 alem2 : ℕ → UInt8) : Prop :=
  tipoLido b m alem1 = DHCP_OFFER ∧ tipoLido b' m alem2 = DHCP_ACK

def desfechoDe (b b' : Sabido) (m : RxBuf) (alem1 alem2 : ℕ → UInt8) : Option (ℕ × List UInt8) :=
  if tipoLido b m alem1 ≠ DHCP_OFFER then some (0, ip)
  else if tipoLido b' m alem2 ≠ DHCP_ACK then some (0, ip)
  else some (1, quatro (vista (preenche b' m) alem2) OFF_YIADDR)

theorem desfechoDe_of_sucesso (h : Sucesso b b' m alem1 alem2) :
    desfechoDe b b' m alem1 alem2 = some (1, quatro (vista (preenche b' m) alem2) OFF_YIADDR) := by
  rw [desfechoDe, if_neg (not_not.mpr h.1), if_neg (not_not.mpr h.2)]

theorem desfechoDe_of_not (h : ¬ Sucesso b b' m alem1 alem2) : desfechoDe b b' m alem1 alem2 = some (0, ip) := by
  rw [desfechoDe]
  split
  next => rfl
  next hoffer =>
    rw [if_pos]
    exact fun hack => h ⟨not_not.mp hoffer, hack⟩

theorem sucesso_of_eq (h : desfechoDe b b' m alem1 alem2 = desfechoDe b b' m' alem1 alem2)
    (hs : Sucesso b b' m alem1 alem2) : Sucesso b b' m' alem1 alem2 := by
  by_contra hno
  rw [desfechoDe_of_sucesso hs, desfechoDe_of_not hno] at h
  cases h

/-- The address that is configured has been received when the type of the second packet has been. -/
theorem quatro_yiaddr (hb : Inicial b') (hc : Cabe b') {t : UInt8} (h : tipoRecebido b' alem2 = some t) :
    quatro (vista (preenche b' m) alem2) OFF_YIADDR = quatro (vista (preenche b' m') alem2) OFF_YIADDR := by
  have hbyte (j : ℕ) (hj : j ≤ OFF_OPTIONS) : vista (preenche b' m) alem2 j = vista (preenche b' m') alem2 j := by
    obtain ⟨x, hx⟩ := exists_of_recebido hb h hj
    rw [vista_of_some hc hx, vista_of_some hc hx]
  rw [quatro, quatro, hbyte OFF_YIADDR (by decide), hbyte (OFF_YIADDR + 1) (by decide),
    hbyte (OFF_YIADDR + 2) (by decide), hbyte (OFF_YIADDR + 3) (by decide)]

/-- Two packets whose outcome does not depend on the memory. -/
def Resolvidos (b b' : Sabido) : Prop :=
  ∀ alem1 alem2,
    match tipoRecebido b alem1, tipoRecebido b' alem2 with
    | some _, some _ => True
    | some offer, none => offer ≠ DHCP_OFFER
    | none, some ack => ack ≠ DHCP_ACK
    | none, none => ∀ m, tipoLido b m alem1 = DHCP_OFFER → tipoLido b' m alem2 ≠ DHCP_ACK

theorem desfechoDe_eq (hb' : Inicial b') (hc' : Cabe b') (h : Resolvidos b b') (m m' : RxBuf)
    (alem1 alem2 : ℕ → UInt8) : desfechoDe b b' m alem1 alem2 = desfechoDe b b' m' alem1 alem2 := by
  have hresolvido := h alem1 alem2
  have hfail (hno : ∀ m, ¬ Sucesso b b' m alem1 alem2) :
      desfechoDe b b' m alem1 alem2 = desfechoDe b b' m' alem1 alem2 := by
    rw [desfechoDe_of_not (hno m), desfechoDe_of_not (hno m')]
  cases h1 : tipoRecebido b alem1 with
  | none =>
      cases h2 : tipoRecebido b' alem2 with
      | none =>
          rw [h1, h2] at hresolvido
          exact hfail fun m hs => hresolvido m hs.1 hs.2
      | some ack =>
          rw [h1, h2] at hresolvido
          exact hfail fun m hs => hresolvido ((tipoLido_of_recebido h2 m).symm.trans hs.2)
  | some offer =>
      cases h2 : tipoRecebido b' alem2 with
      | none =>
          rw [h1, h2] at hresolvido
          exact hfail fun m hs => hresolvido ((tipoLido_of_recebido h1 m).symm.trans hs.1)
      | some ack =>
          rw [desfechoDe, desfechoDe, tipoLido_of_recebido h1, tipoLido_of_recebido h1, tipoLido_of_recebido h2,
            tipoLido_of_recebido h2, quatro_yiaddr hb' hc' h2]

/-- Where the type of a packet is not decided, there are memories for one type and for another. -/
theorem exists_outro (hb : Inicial b) (hc : Cabe b) (h : tipoRecebido b alem1 = none) (t : UInt8) :
    ∃ m m' alem, (tipoLido b m alem = t ↔ ¬ tipoLido b m' alem = t) := by
  obtain ⟨u, hu⟩ := tipoLido_ff hb hc h
  by_cases hut : u = t
  · obtain ⟨m, alem, hm⟩ := exists_tipoLido hb hc h (t + 1)
    refine ⟨m, fun _ => 0xFF, alem, ?_⟩
    rw [hm, hu alem]
    exact iff_of_false (by rw [UInt8.add_eq_left]; decide) (not_not.mpr hut)
  · obtain ⟨m, alem, hm⟩ := exists_tipoLido hb hc h t
    refine ⟨m, fun _ => 0xFF, alem, ?_⟩
    rw [hm, hu alem]
    exact iff_of_true rfl hut

theorem decidido_iff (hb : Inicial b) (hc : Cabe b) (t : UInt8) :
    (∀ alem m m', tipoLido b m alem = t ↔ tipoLido b m' alem = t) ↔ ∀ alem, tipoRecebido b alem ≠ none := by
  constructor
  · intro h alem hnone
    obtain ⟨m, m', alem', hm⟩ := exists_outro hb hc hnone t
    have hsame := h alem' m m'
    tauto
  · intro h alem m m'
    obtain ⟨u, hu⟩ := Option.ne_none_iff_exists'.mp (h alem)
    rw [tipoLido_of_recebido hu, tipoLido_of_recebido hu]

theorem resolvidos_of_eq (hb : Inicial b) (hc : Cabe b) (hb' : Inicial b') (hc' : Cabe b')
    (h : ∀ m m' alem1 alem2, desfechoDe b b' m alem1 alem2 = desfechoDe b b' m' alem1 alem2) : Resolvidos b b' := by
  have hiff (m m' : RxBuf) (alem1 alem2 : ℕ → UInt8) :
      Sucesso b b' m alem1 alem2 ↔ Sucesso b b' m' alem1 alem2 :=
    ⟨sucesso_of_eq (h m m' alem1 alem2), sucesso_of_eq (h m' m alem1 alem2)⟩
  intro alem1 alem2
  cases h1 : tipoRecebido b alem1 with
  | none =>
      cases h2 : tipoRecebido b' alem2 with
      | none =>
          intro m hoffer hack
          -- memory full of 0xFF succeeds too, and does so whatever lies behind `rx_buf`
          obtain ⟨t, ht⟩ := tipoLido_ff hb hc h1
          have hff := (hiff m (fun _ => 0xFF) alem1 alem2).mp ⟨hoffer, hack⟩
          obtain ⟨m', alem, hm'⟩ := exists_tipoLido hb hc h1 0
          have hs := (hiff (fun _ => 0xFF) m' alem alem2).mp ⟨(ht alem).trans ((ht alem1).symm.trans hff.1), hff.2⟩
          rw [Sucesso, hm'] at hs
          exact absurd hs.1 (by decide)
      | some ack =>
          rintro rfl
          obtain ⟨m, m', alem, hm⟩ := exists_outro hb hc h1 DHCP_OFFER
          have hs := hiff m m' alem alem2
          rw [Sucesso, Sucesso, tipoLido_of_recebido h2, tipoLido_of_recebido h2] at hs
          tauto
  | some offer =>
      cases h2 : tipoRecebido b' alem2 with
      | none =>
          rintro rfl
          obtain ⟨m, m', alem, hm⟩ := exists_outro hb' hc' h2 DHCP_ACK
          have hs := hiff m m' alem1 alem
          rw [Sucesso, Sucesso, tipoLido_of_recebido h1, tipoLido_of_recebido h1] at hs
          tauto
      | some ack => trivial

end TwoRuns

section Outcome

variable (amb : Ambiente) (xid : UInt32) (hostname : List UInt8) (s : Cliente)

/-- The outcome is settled by what is received: the packets are such, or one does not come. -/
def Decidido (w : W5100) : Prop :=
  match recebido 30000 amb.oferta (amb.aberto w) with
  | some (some (d, w)) =>
      match recebido 50000 amb.confirmacao (amb.reaberto w) with
      -- after an OFFER the call goes on for ever
      | none => ∀ alem, tipoRecebido (primeiro d) alem ≠ none
      | some none => True
      | some (some (e, _)) => Resolvidos (primeiro d) (segundo d e)
  | _ => True

theorem length_recebido {timeoutMs : UInt32} {espera : Espera} {w w' : W5100} {d : List UInt8}
    (h : recebido timeoutMs espera w = some (some (d, w'))) : d.length ≤ 320 := by
  obtain ⟨⟨chegou, w₁⟩, -, hr⟩ := Option.map_eq_some_iff.mp h
  cases chegou with
  | false => cases hr
  | true =>
      obtain rfl : (recvUdpPacket 320 w₁).2.1 = d := congrArg Prod.fst (Option.some.inj hr)
      exact length_recvUdpPacket w₁

/-- A call's outcome depends on nothing but the datagrams and the time exactly when they settle it. -/
theorem so_dos_datagramas_iff : SoDosDatagramas amb xid hostname s ↔ Decidido amb s.w := by
  simp only [SoDosDatagramas, desfecho_request]
  rw [Decidido]
  cases h1 : recebido 30000 amb.oferta (amb.aberto s.w) with
  | none => exact iff_of_true (fun _ _ _ _ => rfl) trivial
  | some r =>
      cases r with
      | none => exact iff_of_true (fun _ _ _ _ => rfl) trivial
      | some r =>
          obtain ⟨d, w⟩ := r
          have hd := length_recebido h1
          dsimp only [desfechoOffer]
          cases h2 : recebido 50000 amb.confirmacao (amb.reaberto w) with
          | none =>
              have hiff (p q : Prop) [Decidable p] [Decidable q] :
                  (if ¬ p then some (0, ip) else none) = (if ¬ q then some (0, ip) else none) ↔ (p ↔ q) := by
                by_cases hp : p <;> by_cases hq : q <;> simp [hp, hq]
              rw [← decidido_iff (inicial_primeiro d) (cabe_primeiro hd) DHCP_OFFER]
              exact ⟨fun h alem m m' => (hiff _ _).mp (h alem alem m m'),
                fun h alem _ m m' => (hiff _ _).mpr (h alem m m')⟩
          | some r' =>
              cases r' with
              | none =>
                  refine iff_of_true (fun _ _ _ _ => ?_) trivial
                  dsimp only [desfechoAck]
                  rw [ite_self, ite_self]
              | some r' =>
                  obtain ⟨e, w'⟩ := r'
                  have he := length_recebido h2
                  constructor
                  · intro h
                    exact resolvidos_of_eq (inicial_primeiro d) (cabe_primeiro hd) (inicial_segundo d e)
                      (cabe_segundo hd he) fun m m' alem1 alem2 => h alem1 alem2 m m'
                  · intro h alem1 alem2 m m'
                    exact desfechoDe_eq (inicial_segundo d e) (cabe_segundo hd he) h m m' alem1 alem2

/-- A chip with one datagram of these sizes in its memory; what is not given is 0. -/
def comDatagrama (dataLen : UInt8) (options : List UInt8) : W5100 where
  rx x := if x = 7 then dataLen else if 248 ≤ x then options.getD (x - 248) 0 else 0
  rxRd := 0
  rxWr := 8 + dataLen.toUInt16

/-- The first datagram has 240 bytes, and no options; the second is an ACK. -/
def semOptions : Ambiente where
  aberto _ := comDatagrama 240 []
  reaberto _ := comDatagrama 244 [53, 1, 5, 0xFF]
  oferta := ⟨0, [⟨[], 0⟩]⟩
  confirmacao := ⟨0, [⟨[], 0⟩]⟩

theorem stale_offer_obeyed :
    ¬ SoDosDatagramas semOptions 0x39000001 (text "orion68k") ⟨comDatagrama 0 [], fun _ => 0, fun _ => 0, []⟩ := by
  intro h
  have hsame := h (fun _ => 0) (fun _ => 0) (fun _ => 0xFF) fun j => mensagem 240 DHCP_OFFER j
  have hfails : desfecho (w5100DhcpRequest semOptions (fun _ => 0) (fun _ => 0) 0x39000001 (text "orion68k")
      ⟨comDatagrama 0 [], fun _ => 0, fun _ => 0xFF, []⟩) = some (0, ip) := by decide +kernel
  have hobeys : desfecho (w5100DhcpRequest semOptions (fun _ => 0) (fun _ => 0) 0x39000001 (text "orion68k")
      ⟨comDatagrama 0 [], fun _ => 0, fun j => mensagem 240 DHCP_OFFER j, []⟩) = some (1, [0, 0, 0, 0]) := by
    decide +kernel
  exact absurd (hfails.symm.trans (hsame.trans hobeys)) (by decide)

end Outcome

end Orion68.DhcpStaleBytes
