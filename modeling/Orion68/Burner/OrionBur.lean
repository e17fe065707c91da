import Orion68.Lib.Interactions

namespace Orion68.OrionBur

open Interactions

def AT28_CHUNK_BYTES : ℕ := 128

def AT28_WRITE_TIMEOUT : ℕ := 400000

def MAX_PAGE_RETRIES : ℕ := 3

def MAX_FW_SIZE : ℕ := 65536

section Code

inductive Acao
  | printf (texto : String)
  | videoPuts (texto : String)
  | videoShowProgress (label : String) (current total : ℕ)
  | videoShowHexAddr (prefixo : String) (endereco : ℕ)
  | leFlash (a : ℕ)
  | escreveFlash (a : ℕ) (b : UInt8)
  | cpuDisableInterrupts
  | cpuRestoreInterrupts (oldSr : UInt16)
  | cpuSoftReset

/-- The flash answers as it likes; `cpu_disable_interrupts` gives the status register. -/
abbrev Resposta : Acao → Type
  | .leFlash _ => UInt8
  | .cpuDisableInterrupts => UInt16
  | _ => Unit

abbrev Programa := Prog Acao Resposta

def faz (q : Acao) : Programa (Resposta q) := query q

def at28UnlockByte (chipAddr : ℕ) (value : UInt8) : Programa Unit := do
  faz (.escreveFlash (2 * chipAddr) value)
  faz (.escreveFlash (2 * chipAddr + 1) value)

def at28DisableSdpPage : Programa Unit := do
  at28UnlockByte 0x5555 0xAA
  at28UnlockByte 0x2AAA 0x55
  at28UnlockByte 0x5555 0xA0

/-- The loop that writes the bytes, from index `i` on. -/
def gravaBytes (sysAddr : ℕ) : ℕ → List UInt8 → Programa Unit
  | _, [] => pure ()
  | i, b :: data => faz (.escreveFlash (sysAddr + i) b) >>= fun _ => gravaBytes sysAddr (i + 1) data

/-- The loop that waits for the last byte; `timeout` readings are left. -/
def espera (a : ℕ) (lastByte : UInt8) : ℕ → Programa Bool
  | 0 => pure false
  | timeout + 1 => do
      let b ← faz (.leFlash a)
      if b = lastByte then pure true else espera a lastByte timeout

/-- `data` is cut off at `len`. -/
def flashWriteChunk (sysAddr : ℕ) (data : List UInt8) : Programa Bool :=
  if data = [] then pure true
  else do
    at28DisableSdpPage
    gravaBytes sysAddr 0 data
    espera (sysAddr + data.length - 1) (data.getLastD 0) AT28_WRITE_TIMEOUT

/-- The loop over the attempts, of which `n` are left. -/
def tenta (sysAddr : ℕ) (data : List UInt8) : ℕ → Programa Bool
  | 0 => pure false
  | n + 1 => do
      let ok ← flashWriteChunk sysAddr data
      if ok then pure true else tenta sysAddr data n

/-- The bytes of the chunk at `offset`. -/
def chunkAt (data : List UInt8) (offset : ℕ) : List UInt8 :=
  let chunk := if AT28_CHUNK_BYTES > data.length - offset then data.length - offset else AT28_CHUNK_BYTES
  (data.drop offset).take chunk

def totalChunks (data : List UInt8) : ℕ := (data.length + AT28_CHUNK_BYTES - 1) / AT28_CHUNK_BYTES

/-- The loop over the chunks, given up after `n` rounds; the address of a chunk that has timed out. -/
def writeLoop (data : List UInt8) : ℕ → ℕ → ℕ → Programa (Option ℕ)
  | 0, _, _ => .stuck
  | n + 1, offset, chunkNum =>
      if offset < data.length then do
        let ok ← tenta offset (chunkAt data offset) MAX_PAGE_RETRIES
        if ok then
          faz (.videoShowProgress " Gravando" (chunkNum + 1) (totalChunks data))
          writeLoop data n (offset + (chunkAt data offset).length) (chunkNum + 1)
        else pure (some (offset + (chunkAt data offset).length - 1))
      else pure none

def flashWriteBufferProgress (data : List UInt8) : Programa (Option ℕ) := writeLoop data (data.length + 1) 0 0

/-- The loop over a chunk, from `offset` on. -/
def verificaBytes : ℕ → List UInt8 → ℕ → Programa ℕ
  | _, [], errors => pure errors
  | offset, d :: data, errors => do
      let b ← faz (.leFlash offset)
      verificaBytes (offset + 1) data (if b ≠ d then errors + 1 else errors)

def verifyLoop (data : List UInt8) : ℕ → ℕ → ℕ → ℕ → Programa ℕ
  | 0, _, _, _ => .stuck
  | n + 1, offset, chunkNum, errors =>
      if offset < data.length then do
        let errors ← verificaBytes offset (chunkAt data offset) errors
        faz (.videoShowProgress "Verificando" (chunkNum + 1) (totalChunks data))
        verifyLoop data n (offset + (chunkAt data offset).length) (chunkNum + 1) errors
      else pure errors

def flashVerifyBufferProgress (data : List UInt8) : Programa ℕ := verifyLoop data (data.length + 1) 0 0 0

/-- The disk: the file, if it can be opened, and how many bytes of it `fs_read` delivers. -/
structure Disco where
  arquivo : Option (List UInt8)
  lidos : ℕ

/-- From the disabling of the interrupts on. Behind `cpu_soft_reset` nothing is executed: the model
returns. -/
def grava (rawBuf : List UInt8) : Programa ℕ := do
  let oldSr ← faz .cpuDisableInterrupts
  let falha ← flashWriteBufferProgress rawBuf
  match falha with
  | some lastFailAddr =>
      faz (.cpuRestoreInterrupts oldSr)
      faz (.videoShowHexAddr "ERRO: timeout no endereco" lastFailAddr)
      faz (.videoPuts "NAO REINICIE.\r\n")
      return 1
  | none =>
      let errors ← flashVerifyBufferProgress rawBuf
      if errors ≠ 0 then
        faz (.cpuRestoreInterrupts oldSr)
        faz (.videoPuts "\r\nFALHA NA VERIFICACAO: ")
        faz (.videoPuts (toString (errors % 65536)))
        faz (.videoPuts " byte(s) divergente(s). NAO REINICIE.\r\n")
        return 1
      else
        faz (.videoPuts "\r\nSUCESSO - firmware gravado e verificado. Reiniciando...\r\n")
        faz .cpuSoftReset
        return 0

def main (argc : ℕ) (disco : Disco) : Programa ℕ := do
  if argc < 2 then
    faz (.printf "Uso: orionburn <arquivo_firmware>\r\n")
    return 1
  else
    faz (.printf "OrionBurn - gravador de firmware AT28C256 (Orion68)\r\n")
    faz (.printf "Arquivo: %s\r\n")
    match disco.arquivo with
    | none =>
        faz (.printf "ERRO: nao foi possivel abrir o arquivo.\r\n")
        return 1
    | some arquivo =>
        if arquivo.length = 0 ∨ arquivo.length > MAX_FW_SIZE then
          faz (.printf "ERRO: tamanho de firmware invalido.\r\n")
          return 1
        else
          let rawBuf := arquivo.take disco.lidos
          if rawBuf.length ≠ arquivo.length then
            faz (.printf "ERRO: leitura incompleta do arquivo.\r\n")
            return 1
          else
            faz (.printf "Lidos %u bytes do arquivo.\r\n")
            faz (.printf "Iniciando gravacao. Interrupcoes serao desabilitadas agora.\r\n")
            faz (.printf "A partir daqui, todo o progresso e mostrado direto na tela.\r\n")
            grava rawBuf

end Code

abbrev Evento := Σ q, Resposta q

def leitura (a : ℕ) (v : UInt8) : Evento := ⟨.leFlash a, v⟩

def escrita (a : ℕ) (b : UInt8) : Evento := ⟨.escreveFlash a b, ()⟩

section Tentativas

def gravados (a : ℕ) (data : List UInt8) : List Evento := (data.zipIdx a).map fun p => escrita p.2 p.1

def desbloqueio : List Evento :=
  [escrita (2 * 0x5555) 0xAA, escrita (2 * 0x5555 + 1) 0xAA, escrita (2 * 0x2AAA) 0x55, escrita (2 * 0x2AAA + 1) 0x55,
    escrita (2 * 0x5555) 0xA0, escrita (2 * 0x5555 + 1) 0xA0]

def tentativa (a : ℕ) (data vs : List UInt8) : List Evento :=
  desbloqueio ++ gravados a data ++ vs.map (leitura (a + data.length - 1))

/-- An attempt that reads another value than the last byte until it times out. -/
def Falha (a : ℕ) (data : List UInt8) (es : List Evento) : Prop :=
  ∃ vs, vs.length = AT28_WRITE_TIMEOUT ∧ (∀ v ∈ vs, v ≠ data.getLastD 0) ∧ es = tentativa a data vs

def Sucesso (a : ℕ) (data : List UInt8) (es : List Evento) : Prop :=
  ∃ vs, vs.length < AT28_WRITE_TIMEOUT ∧ es = tentativa a data (vs ++ [data.getLastD 0])

variable {a n i : ℕ} {data : List UInt8} {last : UInt8} {ok : Bool} {es : List Evento}

theorem runs_gravaBytes {u : Unit} (h : Runs (gravaBytes a i data) es (some u)) : es = gravados (a + i) data := by
  induction data generalizing i es with
  | nil => exact (ended_done_iff.mp h).1
  | cons b data ih =>
      obtain ⟨⟨⟩, es', rfl, h'⟩ := ended_query_bind_iff.mp h
      rw [ih h']
      rfl

theorem runs_espera (h : Runs (espera a last n) es (some ok)) :
    ∃ vs : List UInt8, (∀ v ∈ vs, v ≠ last) ∧
      (ok = true ∧ vs.length < n ∧ es = (vs ++ [last]).map (leitura a) ∨ ok = false ∧ vs.length = n ∧ es = vs.map (leitura a)) := by
  induction n generalizing es with
  | zero =>
      obtain ⟨rfl, rfl⟩ := ended_done_iff.mp h
      exact ⟨[], List.forall_mem_nil _, .inr ⟨rfl, rfl, rfl⟩⟩
  | succ n ih =>
      obtain ⟨b, es', rfl, h'⟩ := ended_query_bind_iff.mp h
      split at h'
      next heq =>
        obtain ⟨rfl, rfl⟩ := ended_done_iff.mp h'
        subst heq
        exact ⟨[], List.forall_mem_nil _, .inl ⟨rfl, Nat.succ_pos n, rfl⟩⟩
      next hne =>
        obtain ⟨vs, hvs, hcases⟩ := ih h'
        refine ⟨b :: vs, List.forall_mem_cons.mpr ⟨hne, hvs⟩, ?_⟩
        rcases hcases with ⟨hok, hlen, rfl⟩ | ⟨hok, hlen, rfl⟩
        · exact .inl ⟨hok, Nat.succ_lt_succ hlen, rfl⟩
        · exact .inr ⟨hok, congrArg Nat.succ hlen, rfl⟩

theorem runs_at28DisableSdpPage {u : Unit} (h : Runs at28DisableSdpPage es (some u)) : es = desbloqueio := by
  obtain ⟨⟨⟩, es₁, es₂, rfl, h₁, h₂⟩ := ended_bind_iff.mp h
  obtain ⟨⟨⟩, es₃, es₄, rfl, h₃, h₄⟩ := ended_bind_iff.mp h₂
  have hunlock : ∀ {chipAddr value es u}, Runs (at28UnlockByte chipAddr value) es (some u) →
      es = [escrita (2 * chipAddr) value, escrita (2 * chipAddr + 1) value] := by
    intro chipAddr value es u h
    obtain ⟨⟨⟩, es', rfl, h'⟩ := ended_query_bind_iff.mp h
    obtain ⟨⟨⟩, es'', rfl, h''⟩ := ended_ask_iff.mp h'
    rw [(ended_done_iff.mp h'').1]
    rfl
  rw [hunlock h₁, hunlock h₃, hunlock h₄]
  rfl

theorem runs_flashWriteChunk (hne : data ≠ []) (h : Runs (flashWriteChunk a data) es (some ok)) :
    ok = true ∧ Sucesso a data es ∨ ok = false ∧ Falha a data es := by
  rw [flashWriteChunk, if_neg hne] at h
  obtain ⟨⟨⟩, es₁, es₂, rfl, h₁, h₂⟩ := ended_bind_iff.mp h
  obtain ⟨⟨⟩, es₃, es₄, rfl, h₃, h₄⟩ := ended_bind_iff.mp h₂
  rw [runs_at28DisableSdpPage h₁, runs_gravaBytes h₃]
  obtain ⟨vs, hvs, ⟨hok, hlen, rfl⟩ | ⟨hok, hlen, rfl⟩⟩ := runs_espera h₄
  · exact .inl ⟨hok, vs, hlen, (List.append_assoc _ _ _).symm⟩
  · exact .inr ⟨hok, vs, hlen, hvs, (List.append_assoc _ _ _).symm⟩

theorem runs_tenta (hne : data ≠ []) (h : Runs (tenta a data n) es (some ok)) :
    ∃ falhas : List (List Evento), (∀ f ∈ falhas, Falha a data f) ∧
      (ok = true ∧ falhas.length < n ∧ (∃ s, Sucesso a data s ∧ es = falhas.flatten ++ s) ∨
        ok = false ∧ falhas.length = n ∧ es = falhas.flatten) := by
  induction n generalizing es with
  | zero =>
      obtain ⟨rfl, rfl⟩ := ended_done_iff.mp h
      exact ⟨[], List.forall_mem_nil _, .inr ⟨rfl, rfl, rfl⟩⟩
  | succ n ih =>
      obtain ⟨ok₁, es₁, es₂, rfl, h₁, h₂⟩ := ended_bind_iff.mp h
      rcases runs_flashWriteChunk hne h₁ with ⟨rfl, hs⟩ | ⟨rfl, hf⟩
      · obtain ⟨rfl, rfl⟩ := ended_done_iff.mp h₂
        exact ⟨[], List.forall_mem_nil _, .inl ⟨rfl, Nat.succ_pos n, es₁, hs, List.append_nil es₁⟩⟩
      · obtain ⟨falhas, hall, hcases⟩ := ih h₂
        refine ⟨es₁ :: falhas, List.forall_mem_cons.mpr ⟨hf, hall⟩, ?_⟩
        rcases hcases with ⟨hok, hlen, s, hs, rfl⟩ | ⟨hok, hlen, rfl⟩
        · exact .inl ⟨hok, Nat.succ_lt_succ hlen, s, hs, (List.append_assoc _ _ _).symm⟩
        · exact .inr ⟨hok, congrArg Nat.succ hlen, rfl⟩

end Tentativas

section Gravacao

variable {data : List UInt8} {offset chunkNum n i : ℕ} {es : List Evento} {r : Option ℕ}

def Gravado (a : ℕ) (data : List UInt8) (es : List Evento) : Prop :=
  ∃ (falhas : List (List Evento)) (s : List Evento), falhas.length < MAX_PAGE_RETRIES ∧ (∀ f ∈ falhas, Falha a data f) ∧
    Sucesso a data s ∧ es = falhas.flatten ++ s

def Esgotado (a : ℕ) (data : List UInt8) (es : List Evento) : Prop :=
  ∃ falhas : List (List Evento), falhas.length = MAX_PAGE_RETRIES ∧ (∀ f ∈ falhas, Falha a data f) ∧ es = falhas.flatten

/-- The writing from an offset on: it comes to the end of the data, or to a chunk of which the
attempts time out. -/
inductive Escrita (data : List UInt8) : ℕ → List Evento → Option ℕ → Prop
  | fim {offset : ℕ} (h : data.length ≤ offset) : Escrita data offset [] none
  | bloco {offset k : ℕ} {es es' : List Evento} {r : Option ℕ} (h : offset < data.length)
      (hes : Gravado offset (chunkAt data offset) es)
      (hes' : Escrita data (offset + (chunkAt data offset).length) es' r) :
      Escrita data offset (es ++ ⟨.videoShowProgress " Gravando" k (totalChunks data), ()⟩ :: es') r
  | timeout {offset : ℕ} {es : List Evento} (h : offset < data.length) (hes : Esgotado offset (chunkAt data offset) es) :
      Escrita data offset es (some (offset + (chunkAt data offset).length - 1))

theorem chunkAt_eq (data : List UInt8) (offset : ℕ) : chunkAt data offset = (data.drop offset).take AT28_CHUNK_BYTES := by
  rw [chunkAt]
  split
  next hlt =>
    rw [List.take_of_length_le (Nat.le_of_eq List.length_drop),
      List.take_of_length_le (Nat.le_of_lt (List.length_drop ▸ hlt))]
  next => rfl

theorem chunkAt_length_pos (h : offset < data.length) : 0 < (chunkAt data offset).length := by
  rw [chunkAt_eq, List.length_take, List.length_drop, AT28_CHUNK_BYTES]
  omega

theorem chunkAt_length_le (h : offset ≤ data.length) : offset + (chunkAt data offset).length ≤ data.length := by
  rw [chunkAt_eq, List.length_take, List.length_drop]
  omega

theorem chunkAt_ne_nil (h : offset < data.length) : chunkAt data offset ≠ [] :=
  List.ne_nil_of_length_pos (chunkAt_length_pos h)

theorem chunkAt_append (data : List UInt8) (offset : ℕ) :
    chunkAt data offset ++ data.drop (offset + (chunkAt data offset).length) = data.drop offset := by
  have hpre : chunkAt data offset <+: data.drop offset := by
    rw [chunkAt_eq]
    exact List.take_prefix _ _
  rw [← List.drop_drop]
  conv_lhs => rw [List.prefix_iff_eq_take.mp hpre, List.length_take_of_le hpre.length_le]
  exact List.take_append_drop _ _

theorem runs_writeLoop (h : Runs (writeLoop data n offset chunkNum) es (some r)) : Escrita data offset es r := by
  induction n generalizing offset chunkNum es with
  | zero => cases h
  | succ n ih =>
      rw [writeLoop] at h
      split at h
      next hlt =>
        obtain ⟨ok, es₁, es₂, rfl, h₁, h₂⟩ := ended_bind_iff.mp h
        obtain ⟨falhas, hall, ⟨rfl, hlen, s, hs, rfl⟩ | ⟨rfl, hlen, rfl⟩⟩ := runs_tenta (chunkAt_ne_nil hlt) h₁
        · obtain ⟨⟨⟩, es₃, rfl, h₃⟩ := ended_query_bind_iff.mp h₂
          exact .bloco hlt ⟨falhas, s, hlen, hall, hs, rfl⟩ (ih h₃)
        · obtain ⟨rfl, rfl⟩ := ended_done_iff.mp h₂
          rw [List.append_nil]
          exact .timeout hlt ⟨falhas, hlen, hall, rfl⟩
      next hge =>
        obtain ⟨rfl, rfl⟩ := ended_done_iff.mp h
        exact .fim (Nat.not_lt.mp hge)

theorem gravados_append (a : ℕ) (d d' : List UInt8) : gravados a (d ++ d') = gravados a d ++ gravados (a + d.length) d' := by
  rw [gravados, List.zipIdx_append, List.map_append]
  rfl

theorem Escrita.todos (h : Escrita data offset es r) (hr : r = none) : gravados offset (data.drop offset) ⊆ es := by
  induction h with
  | fim h =>
      rw [List.drop_eq_nil_of_le h]
      exact List.Subset.refl _
  | bloco h hes hes' ih =>
      obtain ⟨falhas, s, -, -, ⟨vs, -, rfl⟩, rfl⟩ := hes
      rw [← chunkAt_append, gravados_append]
      refine List.append_subset.mpr ⟨?_, ?_⟩
      · intro e he
        exact List.mem_append_left _ (List.mem_append_right _ (List.mem_append_left _ (List.mem_append_right _ he)))
      · exact fun e he => List.mem_append_right _ (List.mem_cons_of_mem _ (ih hr he))
  | timeout h hes => cases hr

end Gravacao

section Verificacao

variable {data : List UInt8} {offset chunkNum n errors errors' : ℕ} {es : List Evento}

def leituras (es : List Evento) : List (ℕ × UInt8) :=
  es.filterMap fun e =>
    match e with
    | ⟨.leFlash a, v⟩ => some (a, v)
    | _ => none

theorem leituras_append (es es' : List Evento) : leituras (es ++ es') = leituras es ++ leituras es' := List.filterMap_append

def lidos (a : ℕ) (vs : List UInt8) : List (ℕ × UInt8) := (List.range' a vs.length).zip vs

theorem lidos_append (a : ℕ) (vs ws : List UInt8) : lidos a (vs ++ ws) = lidos a vs ++ lidos (a + vs.length) ws := by
  rw [lidos, List.length_append, ← List.range'_append_1, List.zip_append List.length_range']
  rfl

theorem runs_verificaBytes (h : Runs (verificaBytes offset data errors) es (some errors')) :
    ∃ vs, vs.length = data.length ∧ leituras es = lidos offset vs ∧ errors ≤ errors' ∧ (errors' = errors ↔ vs = data) := by
  induction data generalizing offset errors es with
  | nil =>
      obtain ⟨rfl, rfl⟩ := ended_done_iff.mp h
      exact ⟨[], rfl, rfl, Nat.le_refl _, iff_of_true rfl rfl⟩
  | cons d data ih =>
      obtain ⟨b, es', rfl, h'⟩ := ended_query_bind_iff.mp h
      obtain ⟨vs, hlen, hreads, hle, hiff⟩ := ih h'
      refine ⟨b :: vs, congrArg Nat.succ hlen, ?_, ?_, ?_⟩
      · exact congrArg (List.cons (offset, b)) hreads
      · split at hle <;> omega
      · rw [List.cons.injEq]
        by_cases hb : b = d
        · rw [if_neg (not_not_intro hb)] at hiff
          rw [hiff, and_iff_right hb]
        · rw [if_pos hb] at hle
          exact iff_of_false (by omega) fun h => hb h.1

theorem runs_verifyLoop (h : Runs (verifyLoop data n offset chunkNum errors) es (some errors')) :
    ∃ vs, vs.length = (data.drop offset).length ∧ leituras es = lidos offset vs ∧ errors ≤ errors' ∧
      (errors' = errors ↔ vs = data.drop offset) := by
  induction n generalizing offset chunkNum errors es with
  | zero => cases h
  | succ n ih =>
      rw [verifyLoop] at h
      split at h
      next hlt =>
        obtain ⟨errors₁, es₁, es₂, rfl, h₁, h₂⟩ := ended_bind_iff.mp h
        obtain ⟨⟨⟩, es₃, rfl, h₃⟩ := ended_query_bind_iff.mp h₂
        obtain ⟨vs, hlen, hreads, hle, hiff⟩ := runs_verificaBytes h₁
        obtain ⟨ws, hlen', hreads', hle', hiff'⟩ := ih h₃
        refine ⟨vs ++ ws, ?_, ?_, Nat.le_trans hle hle', ?_⟩
        · rw [← chunkAt_append, List.length_append, List.length_append, hlen, hlen']
        · rw [leituras_append, hreads, lidos_append, hlen]
          exact congrArg _ hreads'
        · have hinj : vs ++ ws = chunkAt data offset ++ data.drop (offset + (chunkAt data offset).length) ↔
              vs = chunkAt data offset ∧ ws = data.drop (offset + (chunkAt data offset).length) :=
            ⟨fun h => List.append_inj h hlen, fun ⟨h₁, h₂⟩ => congrArg₂ _ h₁ h₂⟩
          rw [← chunkAt_append, hinj, ← hiff, ← hiff']
          omega
      next hge =>
        obtain ⟨rfl, rfl⟩ := ended_done_iff.mp h
        rw [List.drop_eq_nil_of_le (Nat.not_lt.mp hge)]
        exact ⟨[], rfl, rfl, Nat.le_refl _, iff_of_true rfl rfl⟩

end Verificacao

section Fim

variable {a offset chunkNum n i errors : ℕ} {data : List UInt8} {last : UInt8}

theorem espera_ends : Ends (espera a last n) := by
  induction n with
  | zero => trivial
  | succ n ih =>
      intro b
      change Ends (if b = last then _ else _)
      split
      · trivial
      · exact ih

theorem gravaBytes_ends : Ends (gravaBytes a i data) := by
  induction data generalizing i with
  | nil => trivial
  | cons b data ih => exact fun _ => ih

theorem flashWriteChunk_ends : Ends (flashWriteChunk a data) := by
  rw [flashWriteChunk]
  split
  · trivial
  · exact Ends.bind (fun _ _ _ _ _ _ => trivial) fun _ => gravaBytes_ends.bind fun _ => espera_ends

theorem tenta_ends : Ends (tenta a data n) := by
  induction n with
  | zero => trivial
  | succ n ih =>
      apply flashWriteChunk_ends.bind
      intro ok
      split
      · trivial
      · exact ih

theorem writeLoop_ends (ho : offset ≤ data.length) (hn : data.length < offset + n) : Ends (writeLoop data n offset chunkNum) := by
  induction n generalizing offset chunkNum with
  | zero => exact absurd hn (Nat.not_lt.mpr ho)
  | succ n ih =>
      rw [writeLoop]
      split
      next hlt =>
        apply tenta_ends.bind
        intro ok
        split
        · have hpos := chunkAt_length_pos hlt
          exact fun _ => ih (chunkAt_length_le ho) (by omega)
        · trivial
      next => trivial

theorem verificaBytes_ends : Ends (verificaBytes offset data errors) := by
  induction data generalizing offset errors with
  | nil => trivial
  | cons d data ih => exact fun _ => ih

theorem verifyLoop_ends (ho : offset ≤ data.length) (hn : data.length < offset + n) :
    Ends (verifyLoop data n offset chunkNum errors) := by
  induction n generalizing offset chunkNum errors with
  | zero => exact absurd hn (Nat.not_lt.mpr ho)
  | succ n ih =>
      rw [verifyLoop]
      split
      next hlt =>
        have hpos := chunkAt_length_pos hlt
        exact verificaBytes_ends.bind fun _ _ => ih (chunkAt_length_le ho) (by omega)
      next => trivial

end Fim

end Orion68.OrionBur
