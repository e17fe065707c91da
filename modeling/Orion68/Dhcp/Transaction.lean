import Orion68.Dhcp.StaleBytes

namespace Orion68.DhcpTransaction

open Memory Receiver Shell DhcpClient DhcpOptions DhcpStaleBytes

section Packets

def campo (e : List UInt8) (j : ℕ) : UInt8 := e.getD j 0

/-- The packet carries this transaction id, and is a DHCPACK by the options within its own size. -/
def AckDe (xid : UInt32) (e : List UInt8) : Prop :=
  quatro (campo e) 4 = bytes32 xid ∧ (parseDhcpOptions (campo e) e.length [0, 0, 0, 0]).1 = DHCP_ACK

instance (xid : UInt32) (e : List UInt8) : Decidable (AckDe xid e) := inferInstanceAs (Decidable (_ ∧ _))

theorem length_of_ackDe {xid : UInt32} {e : List UInt8} (h : AckDe xid e) : OFF_OPTIONS < e.length := by
  by_contra hle
  have htype := h.2
  rw [parseDhcpOptions, parseLoop_fim (by omega)] at htype
  exact absurd htype (by decide)

theorem quatro_segundo {d e : List UInt8} {m : RxBuf} {alem : ℕ → UInt8} (he : OFF_OPTIONS < e.length) :
    quatro (vista (preenche (segundo d e) m) alem) OFF_YIADDR = quatro (campo e) OFF_YIADDR := by
  have hbyte (j : ℕ) (hj : j < OFF_OPTIONS) : vista (preenche (segundo d e) m) alem j = campo e j := by
    have hbuf : j < 320 := Nat.lt_trans hj (by decide)
    have hin : j < e.length := Nat.lt_trans hj he
    rw [vista, dif_pos hbuf, preenche, segundo, campo, List.getD_eq_getElem?_getD, List.getElem?_eq_getElem hin]
    rfl
  rw [quatro, quatro, hbyte OFF_YIADDR (by decide), hbyte (OFF_YIADDR + 1) (by decide),
    hbyte (OFF_YIADDR + 2) (by decide), hbyte (OFF_YIADDR + 3) (by decide)]

end Packets

section Calls

variable (amb : Ambiente) (alem1 alem2 : ℕ → UInt8) (xid : UInt32) (hostname : List UInt8) (s : Cliente)

/-- The two packets that a call waits for, when both come in time. -/
def pacotes (w : W5100) : Option (List UInt8 × List UInt8) :=
  match recebido 30000 amb.oferta (amb.aberto w) with
  | some (some (d, w)) =>
      match recebido 50000 amb.confirmacao (amb.reaberto w) with
      | some (some (e, _)) => some (d, e)
      | _ => none
  | _ => none

/-- A call that configures an address has taken it from a DHCPACK of its transaction. -/
def SoDaTransacao : Prop :=
  ∀ a, desfecho (w5100DhcpRequest amb alem1 alem2 xid hostname s) = some (1, a) →
    ∃ d e, pacotes amb s.w = some (d, e) ∧ AckDe xid e ∧ a = quatro (campo e) OFF_YIADDR

/-- When both packets come, and are taken for an OFFER and an ACK, the second is a DHCPACK of the
transaction. -/
def SemPacoteAlheio : Prop :=
  ∀ d e, pacotes amb s.w = some (d, e) → tipoLido (primeiro d) s.rxBuf alem1 = DHCP_OFFER →
    tipoLido (segundo d e) s.rxBuf alem2 = DHCP_ACK → AckDe xid e

variable {amb alem1 alem2 xid hostname s} {d e a : List UInt8}

theorem desfecho_of_pacotes (h : pacotes amb s.w = some (d, e)) :
    desfecho (w5100DhcpRequest amb alem1 alem2 xid hostname s) =
      desfechoDe (primeiro d) (segundo d e) s.rxBuf alem1 alem2 := by
  rw [desfecho_request amb xid hostname s alem1 alem2 s.rxBuf]
  rw [pacotes] at h
  split at h
  next d' w h1 =>
    split at h
    next e' w' h2 =>
      obtain ⟨rfl, rfl⟩ := Prod.mk.inj (Option.some.inj h)
      rw [h1, desfechoOffer, h2]
      rfl
    next => cases h
  next => cases h

theorem desfecho_ne_one (h : pacotes amb s.w = none) :
    desfecho (w5100DhcpRequest amb alem1 alem2 xid hostname s) ≠ some (1, a) := by
  rw [desfecho_request amb xid hostname s alem1 alem2 s.rxBuf]
  intro hone
  rw [desfechoOffer.eq_def] at hone
  split at hone
  next => cases hone
  next => cases hone
  next d w h1 =>
    split at hone
    next => cases hone
    next =>
      rw [desfechoAck.eq_def] at hone
      split at hone
      next => cases hone
      next => cases hone
      next e w' h2 =>
        rw [pacotes, h1] at h
        dsimp only at h
        rw [h2] at h
        cases h

/-- A call configures addresses of its own transaction only, exactly when the packet that is taken for
the ACK is one of the transaction. -/
theorem ack_of_transaction_iff (amb : Ambiente) (alem1 alem2 : ℕ → UInt8) (xid : UInt32) (hostname : List UInt8)
    (s : Cliente) : SoDaTransacao amb alem1 alem2 xid hostname s ↔ SemPacoteAlheio amb alem1 alem2 xid s := by
  constructor
  · intro h d e hpacotes hoffer hack
    have hone : desfecho (w5100DhcpRequest amb alem1 alem2 xid hostname s) = _ :=
      (desfecho_of_pacotes hpacotes).trans (desfechoDe_of_sucesso ⟨hoffer, hack⟩)
    obtain ⟨d', e', hpacotes', hxid, -⟩ := h _ hone
    obtain ⟨rfl, rfl⟩ := Prod.mk.inj (Option.some.inj (hpacotes.symm.trans hpacotes'))
    exact hxid
  · intro h a hone
    cases hpacotes : pacotes amb s.w with
    | none => exact absurd hone (desfecho_ne_one hpacotes)
    | some pacotes =>
        obtain ⟨d, e⟩ := pacotes
        rw [desfecho_of_pacotes hpacotes] at hone
        by_cases hs : Sucesso (primeiro d) (segundo d e) s.rxBuf alem1 alem2
        · have hxid := h d e hpacotes hs.1 hs.2
          rw [desfechoDe_of_sucesso hs] at hone
          obtain ⟨-, rfl⟩ := Prod.mk.inj (Option.some.inj hone)
          exact ⟨d, e, rfl, hxid, quatro_segundo (length_of_ackDe hxid)⟩
        · rw [desfechoDe_of_not hs] at hone
          cases hone

/-- Both packets have 244 bytes, an OFFER and an ACK of the transaction 0. -/
def respostaAlheia : Ambiente where
  aberto _ := comDatagrama 244 [53, 1, 2, 0xFF]
  reaberto _ := comDatagrama 244 [53, 1, 5, 0xFF]
  oferta := ⟨0, [⟨[], 0⟩]⟩
  confirmacao := ⟨0, [⟨[], 0⟩]⟩

theorem foreign_ack_obeyed : ¬ SoDaTransacao respostaAlheia (fun _ => 0) (fun _ => 0) 0x39000001 (text "orion68k")
    ⟨comDatagrama 0 [], fun _ => 0, fun _ => 0, []⟩ := by
  intro h
  have hone : desfecho (w5100DhcpRequest respostaAlheia (fun _ => 0) (fun _ => 0) 0x39000001 (text "orion68k")
      ⟨comDatagrama 0 [], fun _ => 0, fun _ => 0, []⟩) = some (1, [0, 0, 0, 0]) := by decide +kernel
  obtain ⟨d, e, hpacotes, hxid, -⟩ := h _ hone
  have hzero : (pacotes respostaAlheia (comDatagrama 0 [])).map (fun p => quatro (campo p.2) 4) =
      some [0, 0, 0, 0] := by decide +kernel
  rw [hpacotes] at hzero
  exact absurd ((Option.some.inj hzero).symm.trans hxid.1) (by decide)

end Calls

end Orion68.DhcpTransaction
