import WeftAgent.FirewallStatus.Emitter
import WeftAgent.Go.Proofs.FloatProofs
import WeftAgent.Trace.Along

/-!
# Exported drop counters

What the next read will add to an exported counter (`owed`) has been dropped and not been exported
yet. A read that fails passes for a sample of zero and makes the whole kernel counter owed, which is
right only if the table is a new one.
-/

namespace WeftAgent.FirewallStatus

open WeftAgent.Go WeftAgent.Metrics WeftAgent.Trace

/-- What a read of the kernel counter adds to the exported counter. -/
def owed (kernel last : UInt64) : Nat :=
  if kernel < last then kernel.toNat else kernel.toNat - last.toNat

/-- What has been exported and what is owed is covered by what was dropped. After a rebuild all that
the kernel counts is new. -/
structure Covered (d : Drops) (c : DropCounter) (rebuilt : Bool) : Prop where
  exact : c.total.valFloat = 0
  small : d.dropped ≤ 2 ^ 53
  owed : c.total.valInt.toNat + owed d.kernel c.last ≤ d.dropped
  rebuilt : rebuilt = true → c.total.valInt.toNat + d.kernel.toNat ≤ d.dropped

variable {d : Drops} {c : DropCounter} {rebuilt : Bool}

theorem owed_le (kernel last : UInt64) : owed kernel last ≤ kernel.toNat := by
  unfold owed
  split <;> omega

/-- The difference that `RecordFirewallDrops` computes is what is owed; it never wraps. -/
theorem toNat_delta (current last : UInt64) :
    (current - subtrahend current last).toNat = owed current last := by
  unfold owed subtrahend
  split_ifs with hlt
  · rw [UInt64.sub_zero]
  · exact UInt64.toNat_sub_of_le _ _ (UInt64.not_lt.mp hlt)

/-- A whole number is added to the integer part of the counter, as long as that does not wrap. -/
theorem add_float64 {total : Counter} {v : Nat} (hv : total.valInt.toNat + float64 v < 2 ^ 64) :
    (total.add (float64 v)).valInt.toNat = total.valInt.toNat + float64 v ∧
      (total.add (float64 v)).valFloat = total.valFloat := by
  have hival : (UInt64.ofNat (float64 v)).toNat = float64 v :=
    UInt64.toNat_ofNat_of_lt' (by simp [UInt64.size]; omega)
  unfold Counter.add
  rw [if_pos (by rw [hival, float64_float64])]
  refine ⟨?_, rfl⟩
  rw [UInt64.toNat_add, hival, Nat.mod_eq_of_lt hv]

theorem record_float64 {current : UInt64}
    (h : c.total.valInt.toNat + float64 (owed current c.last) < 2 ^ 64) :
    (c.record current).total.valInt.toNat =
        c.total.valInt.toNat + float64 (owed current c.last) ∧
      (c.record current).total.valFloat = c.total.valFloat := by
  have hdelta := toNat_delta current c.last
  simp only [DropCounter.record]
  generalize current - subtrahend current c.last = delta at hdelta ⊢
  split_ifs with hpos
  · rw [hdelta]
    exact add_float64 h
  · have hzero : owed current c.last = 0 := by
      rw [← hdelta]
      have hle := UInt64.not_lt.mp hpos
      rw [UInt64.le_iff_toNat_le] at hle
      simpa using hle
    rw [hzero]
    exact ⟨rfl, rfl⟩

/-- A difference that a `float64` counts exactly is added exactly. -/
theorem record_exact {current : UInt64} (h : c.total.valInt.toNat + owed current c.last ≤ 2 ^ 53) :
    (c.record current).total.valInt.toNat = c.total.valInt.toNat + owed current c.last ∧
      (c.record current).total.valFloat = c.total.valFloat := by
  have hexact : float64 (owed current c.last) = owed current c.last := float64_of_le (by omega)
  have hrecord : c.total.valInt.toNat + float64 (owed current c.last) < 2 ^ 64 → _ := record_float64
  rw [hexact] at hrecord
  exact hrecord (by omega)

theorem Covered.drop (h : Covered d c rebuilt) {n : Nat} (hn : d.dropped + n ≤ 2 ^ 53) :
    Covered (d.drop n) c rebuilt := by
  obtain ⟨hexact, hsmall, howed, hrebuilt⟩ := h
  have hkernel : (d.kernel + UInt64.ofNat n).toNat = (d.kernel.toNat + n) % 2 ^ 64 := by
    rw [UInt64.toNat_add, UInt64.toNat_ofNat_of_lt' (by simp [UInt64.size]; omega)]
  have hbound : d.kernel.toNat < 2 ^ 64 := d.kernel.toNat_lt
  refine ⟨hexact, hn, ?_, fun hr => ?_⟩
  · simp only [Drops.drop, FirewallStatus.owed, UInt64.lt_iff_toNat_lt, hkernel] at howed ⊢
    split_ifs at howed ⊢ <;> omega
  · have hle := hrebuilt hr
    simp only [Drops.drop, hkernel]
    omega

theorem Covered.rebuild (h : Covered d c rebuilt) : Covered d.rebuild c true := by
  obtain ⟨hexact, hsmall, howed, -⟩ := h
  have hzero : FirewallStatus.owed 0 c.last = 0 := Nat.le_zero.mp (owed_le 0 c.last)
  refine ⟨hexact, hsmall, ?_, fun _ => ?_⟩
  · simp only [Drops.rebuild, hzero]
    omega
  · simp only [Drops.rebuild, UInt64.toNat_zero]
    omega

/-- A read that succeeds exports what is owed. -/
theorem Covered.record (h : Covered d c rebuilt) : Covered d (c.record d.kernel) false := by
  obtain ⟨hexact, hsmall, howed, -⟩ := h
  obtain ⟨hint, hfloat⟩ := record_exact (le_trans howed hsmall)
  refine ⟨hfloat.trans hexact, hsmall, ?_, (nomatch ·)⟩
  have hnone : FirewallStatus.owed d.kernel (c.record d.kernel).last = 0 := by
    simp [FirewallStatus.owed, DropCounter.record]
  rw [hint, hnone]
  exact howed

/-- A read that fails makes all of the kernel counter owed. -/
theorem Covered.recordZero (h : Covered d c rebuilt) (hnew : rebuilt = true ∨ c.last = 0) :
    Covered d (c.record 0) rebuilt := by
  obtain ⟨hexact, hsmall, howed, hrebuilt⟩ := h
  have hzero : FirewallStatus.owed 0 c.last = 0 := Nat.le_zero.mp (owed_le 0 c.last)
  have hle : c.total.valInt.toNat + FirewallStatus.owed 0 c.last ≤ 2 ^ 53 := by omega
  obtain ⟨hint, hfloat⟩ := record_exact hle
  rw [hzero, Nat.add_zero] at hint
  refine ⟨hfloat.trans hexact, hsmall, ?_, by rwa [hint]⟩
  have hall : FirewallStatus.owed d.kernel (c.record 0).last = d.kernel.toNat := by
    simp [FirewallStatus.owed, DropCounter.record]
  rw [hint, hall]
  rcases hnew with hr | hlast
  · exact hrebuilt hr
  · simpa [FirewallStatus.owed, hlast] using howed

theorem Covered.get_le (h : Covered d c rebuilt) : c.total.get ≤ d.dropped := by
  obtain ⟨hexact, hsmall, howed, -⟩ := h
  have hint : float64 c.total.valInt.toNat = c.total.valInt.toNat := float64_of_le (by omega)
  rw [Counter.get, hexact, Nat.zero_add, hint, hint]
  omega

/-! ## Whole histories -/

/-- The samples are counted whether or not they could be published. -/
theorem publishOnce_drops (r : Recorder) (status : Status)
    (marshalErr publishErr : Option GoError) :
    (publishOnce r status marshalErr publishErr).packets = r.packets.record status.dropsPackets ∧
      (publishOnce r status marshalErr publishErr).bytes = r.bytes.record status.dropsBytes := by
  unfold publishOnce Recorder.recordFirewallStatusPublish
  cases marshalErr <;> cases publishErr <;> exact ⟨rfl, rfl⟩

def AllCovered (g : Guest) : Prop :=
  Covered g.packets g.recorder.packets g.rebuilt ∧ Covered g.bytes g.recorder.bytes g.rebuilt

theorem AllCovered.step {g : Guest} {e : Event} (h : AllCovered g) (he : g.Countable e) :
    AllCovered (step g e) := by
  obtain ⟨hpackets, hbytes⟩ := h
  cases e with
  | drop packets bytes => exact ⟨hpackets.drop he.1, hbytes.drop he.2⟩
  | rebuild => exact ⟨hpackets.rebuild, hbytes.rebuild⟩
  | tick readErr marshalErr publishErr =>
    unfold AllCovered
    simp only [FirewallStatus.step, publishOnce_drops]
    cases readErr with
    | none =>
      rw [Option.isSome_none, Bool.and_false]
      exact ⟨hpackets.record, hbytes.record⟩
    | some e =>
      rw [Option.isSome_some, Bool.and_true]
      exact ⟨hpackets.recordZero (he.imp_right And.left),
        hbytes.recordZero (he.imp_right And.right)⟩

/-- In every history in which a read fails only after a rebuild since the last good read, or with
both last samples zero, and in which no more is dropped than a `float64` counts exactly, the
exported totals never exceed what was dropped. -/
theorem honest_of_countable (evs : List Event) (h : Along step Guest.Countable {} evs) :
    (after evs).Honest := by
  have hzero : Covered {} {} false := ⟨rfl, by decide, by decide, (nomatch ·)⟩
  have hall : AllCovered (after evs) := h.invariant (fun _ _ hg he => hg.step he) ⟨hzero, hzero⟩
  exact ⟨hall.1.get_le, hall.2.get_le⟩

/-- Reads fail before anything was counted and after a rebuild. -/
theorem honest_example :
    Along step Guest.Countable {}
        [.tick (some (.errno .EINVAL)) none none, .drop 5 500, .tick none none none, .rebuild,
          .tick (some (.errno .EINVAL)) none none, .drop 2 90, .tick none none none] ∧
      (after [.tick (some (.errno .EINVAL)) none none, .drop 5 500, .tick none none none, .rebuild,
          .tick (some (.errno .EINVAL)) none none, .drop 2 90, .tick none none none]).Honest :=
  ⟨by decide, honest_of_countable _ (by decide)⟩

/-- One read that fails between two that succeed: five packets are dropped and ten are exported. -/
theorem failed_read_counts_twice :
    (after [.drop 5 500, .tick none none none, .tick (some (.errno .EINVAL)) none none,
        .tick none none none]).recorder.packets.total.get = 10 ∧
      (after [.drop 5 500, .tick none none none, .tick (some (.errno .EINVAL)) none none,
        .tick none none none]).packets.dropped = 5 := by
  decide

end WeftAgent.FirewallStatus
