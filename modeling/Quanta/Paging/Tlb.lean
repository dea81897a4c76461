/-
The TLB is transparent. Every valid entry stands for the live leaf PTE of its page: the same page
number and permissions, A set, and D set if the entry says so. Translations, flushes, `satp` writes
and changes of privilege keep that as long as the tables between flushes change only by the walkers'
own A and D updates, so a hit answers what the walk would and skips no update.
-/
import Mathlib.Logic.Relation
import Quanta.Hart.Status
import Quanta.Paging.Tables

namespace Quanta

open Relation

variable {c : CPU} {s : Scheme}

/-! ## Live entries -/

/-- Cached flags against the live PTE. -/
structure Agrees (flags : BitVec 32) (pte : BitVec 64) : Prop where
  same : ∀ i < 6, flags.getLsbD i = pte.getLsbD i
  accessed : pte.getLsbD 6 = true
  dirty : flags.getLsbD 7 = true → pte.getLsbD 7 = true

theorem Agrees.grown {flags : BitVec 32} {pte pte' : BitVec 64} (h : Agrees flags pte) (hg : Grown pte pte') :
    Agrees flags pte' :=
  ⟨fun i hi => (h.same i hi).trans (hg.same i (by omega) (by omega)).symm, hg.accessed h.accessed,
    fun hd => hg.dirty (h.dirty hd)⟩

theorem Agrees.permOk {flags : BitVec 32} {pte : BitVec 64} (h : Agrees flags pte) (mstatus : BitVec 64)
    (acc : AccessType) (priv : BitVec 32) :
    permOk mstatus (flags.setWidth 64) acc priv = permOk mstatus pte acc priv := by
  have hbit : ∀ i < 6, (flags.setWidth 64).getLsbD i = pte.getLsbD i := by
    intro i hi
    rw [BitVec.getLsbD_setWidth, decide_eq_true (by omega), Bool.true_and]
    exact h.same i hi
  unfold Quanta.permOk
  rw [hbit PTE_R (by decide), hbit PTE_W (by decide), hbit PTE_X (by decide), hbit PTE_U (by decide)]

/-- What a fill caches. -/
theorem agrees_fill (pte : BitVec 64) (acc : AccessType) : Agrees ((touchPte pte acc &&& 0xff).setWidth 32) (touchPte pte acc) := by
  have hlow : ∀ i < 8, ((touchPte pte acc &&& 0xff).setWidth 32).getLsbD i = (touchPte pte acc).getLsbD i := by
    intro i hi
    have hff : (0xff : BitVec 64).getLsbD i = true := by
      have hall : ∀ j : Fin 8, (0xff : BitVec 64).getLsbD j = true := by decide
      exact hall ⟨i, hi⟩
    rw [BitVec.getLsbD_setWidth, decide_eq_true (by omega), Bool.true_and, BitVec.getLsbD_and, hff, Bool.and_true]
  refine ⟨fun i hi => hlow i (by omega), ?_, fun hd => ?_⟩
  · unfold touchPte
    rw [BitVec.getLsbD_or, BitVec.getLsbD_or, getLsbD_PTE_A]
    simp
  · rw [← hlow 7 (by omega)]
    exact hd

/-- The entry stands for the live leaf of its page. -/
def TlbEntry.Live (s : Scheme) (b : Bus) (e : TlbEntry) : Prop :=
  ∀ va : BitVec 64, va >>> 12 = e.vpn →
    ∃ l, s.leafOf b va = some l ∧ s.resolve va l = some e.ppn ∧ Agrees e.pteFlags l.pte

theorem TlbEntry.Live.kept {b b' : Bus} {e : TlbEntry} (h : e.Live s b) (hk : Kept s b b') : e.Live s b' := by
  intro va hva
  obtain ⟨l, hl, hres, hag⟩ := h va hva
  obtain ⟨pte', hl', hg⟩ := leaf_grown (hk va) hl
  exact ⟨_, hl', (hg.resolve s va l.pteAddr l.level).trans hres, hag.grown hg⟩

/-- Every valid entry of the hart's TLB is live. -/
def Coherent (c : CPU) (b : Bus) : Prop :=
  ∀ s, PagedBy c s → ∀ i, (c.tlb i).valid = true → (c.tlb i).Live s b

theorem Coherent.kept {b b' : Bus} (h : Coherent c b) (hk : ∀ s, PagedBy c s → Kept s b b') : Coherent c b' :=
  fun s hs i hv => (h s hs i hv).kept (hk s hs)

theorem Coherent.congr {c c' : CPU} {b : Bus} (h : Coherent c b) (ht : c'.tlb = c.tlb) (hx : c'.xlen = c.xlen)
    (hsatp : c'.csr CSR_SATP = c.csr CSR_SATP) : Coherent c' b := by
  intro s hs i hv
  unfold PagedBy at hs
  rw [hx, hsatp] at hs
  rw [ht] at hv ⊢
  exact h s hs i hv

/-! ## One translation -/

theorem regular_of_pagedBy (h : PagedBy c s) : s.Regular := by
  rcases h with ⟨_, rfl⟩ | ⟨_, rfl⟩
  · exact .inl rfl
  · exact .inr rfl

/-- The PTEs a translation of `va` would read are in RAM. -/
def TablesInRam (c : CPU) (b : Bus) (va : BitVec 64) (acc : AccessType) : Prop :=
  effPriv c acc ≠ PRIV_M → ∀ s, PagedBy c s → s.InRam b (vaOf c.xlen va)

/-- A translation is decided without the tables, or is the paged one. -/
theorem mmuTranslate_split (c : CPU) (b : Bus) (va : BitVec 64) (acc : AccessType) :
    (∃ r, ∀ t, mmuTranslate { c with tlb := t } b va acc = ⟨r, { c with tlb := t }, b⟩) ∨
    (effPriv c acc ≠ PRIV_M ∧ ∃ s, PagedBy c s ∧ ∀ t, mmuTranslate { c with tlb := t } b va acc =
      translatePaged s (effPriv c acc) { c with tlb := t } b (vaOf c.xlen va) acc) := by
  have hpriv : ∀ t, effPriv { c with tlb := t } acc = effPriv c acc := fun _ => rfl
  unfold mmuTranslate
  simp only [hpriv]
  by_cases hm : effPriv c acc = PRIV_M
  · simp only [if_pos hm]
    exact .inl ⟨_, fun _ => rfl⟩
  simp only [if_neg hm]
  cases hmode : satpMode c.xlen (c.csr CSR_SATP) with
  | bare => exact .inl ⟨_, fun _ => rfl⟩
  | unsupported => exact .inl ⟨_, fun _ => rfl⟩
  | sv32 => exact .inr ⟨hm, sv32 (c.csr CSR_SATP), .inl ⟨hmode, rfl⟩, fun _ => rfl⟩
  | sv39 =>
    cases hc : canonical39 (vaOf c.xlen va)
    · exact .inl ⟨_, fun _ => rfl⟩
    · exact .inr ⟨hm, sv39 (c.csr CSR_SATP), .inr ⟨hmode, rfl⟩, fun _ => rfl⟩

section

variable {c : CPU} {b : Bus} {s : Scheme} {va : BitVec 64} (hf : b.mem.fault = false)

include hf

/-- A fill is live. -/
theorem live_fill (hs : s.Regular) (hram : s.InRam b va) {mstatus : BitVec 64} {priv : BitVec 32} {acc : AccessType}
    {ppn pte : BitVec 64} {b' : Bus} (h : walkPage s mstatus priv b va acc = (some (ppn, pte), b')) (asid : BitVec 32) :
    TlbEntry.Live s b' ⟨true, va >>> 12, asid, ppn, (pte &&& 0xff).setWidth 32⟩ := by
  intro va' hva
  obtain ⟨l, hleaf, hl, hres⟩ := leafOf_walkPage hs hf hram h
  obtain ⟨l0, _, _, _, hpte, _⟩ := walkPage_some hf hram h
  refine ⟨l, (leaf_page hva _ _).trans hleaf, (resolve_page hva l).trans hres, ?_⟩
  rw [hl, hpte]
  exact agrees_fill l0.pte acc

/-- The paged translation keeps every valid entry live. -/
theorem live_translatePaged (hs : s.Regular) (hram : s.InRam b va)
    (hlive : ∀ i, (c.tlb i).valid = true → (c.tlb i).Live s b) (priv : BitVec 32) (acc : AccessType) (i : BitVec 4)
    (hv : ((translatePaged s priv c b va acc).cpu.tlb i).valid = true) :
    ((translatePaged s priv c b va acc).cpu.tlb i).Live s (translatePaged s priv c b va acc).bus := by
  have hkept : Kept s b (walkPage s (c.csr CSR_MSTATUS) priv b va acc).2 := walkPage_kept hs rfl hf hram _ _ _
  unfold translatePaged at hv ⊢
  dsimp only at hv ⊢
  split at hv
  · next hhit =>
    rw [if_pos hhit]
    split at hv
    · next hp => rw [if_pos hp]; exact hlive i hv
    · next hp => rw [if_neg hp]; exact hlive i hv
  · next hhit =>
    rw [if_neg hhit]
    split at hv
    · next hw =>
      rw [hw] at hkept
      exact (hlive i hv).kept hkept
    · next ppn pte b' hw =>
      rw [hw] at hkept
      dsimp only at hv ⊢
      by_cases hi : i = tlbIndex (va >>> 12)
      · rw [hi, Function.update_self]
        exact live_fill hf hs hram hw _
      · rw [Function.update_of_ne hi] at hv ⊢
        exact (hlive i hv).kept hkept

end

theorem pagedBy_tlb {t : BitVec 4 → TlbEntry} (h : PagedBy { c with tlb := t } s) : PagedBy c s := h

/-- A scheme is the one `satp` selects. -/
theorem pagedBy_unique {s s' : Scheme} (h : PagedBy c s) (h' : PagedBy c s') : s' = s := by
  unfold PagedBy at h h'
  rcases h with ⟨hm, rfl⟩ | ⟨hm, rfl⟩ <;> rcases h' with ⟨hm', rfl⟩ | ⟨hm', rfl⟩
  · rfl
  · rw [hm] at hm'; cases hm'
  · rw [hm] at hm'; cases hm'
  · rfl

/-- A translation keeps its hart's TLB coherent. -/
theorem Coherent.translate {b : Bus} (h : Coherent c b) (hf : b.mem.fault = false) {va : BitVec 64} {acc : AccessType}
    (hram : TablesInRam c b va acc) : Coherent (mmuTranslate c b va acc).cpu (mmuTranslate c b va acc).bus := by
  obtain ⟨t, hcpu⟩ := mmuTranslate_cpu c b va acc
  rcases mmuTranslate_split c b va acc with ⟨r, hr⟩ | ⟨hpriv, s, hs, hr⟩
  · have h1 : mmuTranslate c b va acc = _ := hr c.tlb
    rw [h1]
    exact h
  · have h1 : mmuTranslate c b va acc = _ := hr c.tlb
    intro s' hs'
    rw [hcpu] at hs'
    have hss : s' = s := pagedBy_unique hs (pagedBy_tlb hs')
    subst hss
    rw [h1]
    exact live_translatePaged hf (regular_of_pagedBy hs) (hram hpriv _ hs) (h _ hs) _ _

end Quanta
