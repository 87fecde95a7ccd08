import WeftAgent.FirewallStatus.Accounting
import WeftAgent.FirewallStatus.Proofs.DropsProofs

/-!
# Exact totals

In an orderly history every drop is exported by the first sample after it: what has been exported
and what was dropped since the last sample add up to what was dropped (`Exact`). Whatever the
samples are, the difference that is added never wraps, and the exported total only grows as long as
the counter itself does not overflow.
-/

namespace WeftAgent.FirewallStatus

open WeftAgent.Go WeftAgent.Metrics WeftAgent.Trace

/-! ## One counter -/

/-- Of what was dropped, all but `fresh` has been exported; the kernel counts it on top of the last
sample, or from zero if the table is new. -/
structure Exact (d : Drops) (c : DropCounter) (rebuilt : Bool) (fresh : Nat) : Prop where
  whole : c.total.valFloat = 0
  tally : c.total.valInt.toNat + fresh = d.dropped
  kernel : d.kernel.toNat = (if rebuilt then 0 else c.last.toNat) + fresh
  bounded : d.kernel.toNat ≤ d.dropped

variable {d : Drops} {c : DropCounter} {rebuilt : Bool} {fresh : Nat}

theorem Exact.drop (h : Exact d c rebuilt fresh) {n : Nat} (hn : d.dropped + n ≤ 2 ^ 53) :
    Exact (d.drop n) c rebuilt (fresh + n) := by
  obtain ⟨hwhole, htally, hkernel, hbounded⟩ := h
  have hsum : (d.kernel + UInt64.ofNat n).toNat = d.kernel.toNat + n := by
    rw [UInt64.toNat_add, UInt64.toNat_ofNat_of_lt' (by simp [UInt64.size]; omega)]
    omega
  refine ⟨hwhole, ?_, ?_, ?_⟩
  · simp only [Drops.drop]
    omega
  · simp only [Drops.drop, hsum]
    omega
  · simp only [Drops.drop, hsum]
    omega

theorem Exact.rebuild (h : Exact d c rebuilt 0) : Exact d.rebuild c true 0 :=
  ⟨h.whole, h.tally, rfl, Nat.zero_le _⟩

theorem Exact.owed_eq (h : Exact d c rebuilt fresh)
    (hreset : rebuilt = true → d.kernel < c.last ∨ c.last = 0) : owed d.kernel c.last = fresh := by
  have hkernel := h.kernel
  unfold owed
  cases rebuilt with
  | false =>
    have hge : ¬ d.kernel < c.last := by
      rw [UInt64.lt_iff_toNat_lt, hkernel, if_neg (by decide)]
      omega
    rw [if_neg hge, hkernel, if_neg (by decide), Nat.add_sub_cancel_left]
  | true =>
    rw [if_pos rfl, Nat.zero_add] at hkernel
    rcases hreset rfl with hlt | hzero
    · rw [if_pos hlt, hkernel]
    · rw [hzero, UInt64.toNat_zero, Nat.sub_zero, ite_self, hkernel]

theorem Exact.record (h : Exact d c rebuilt fresh) (hsmall : d.dropped ≤ 2 ^ 53)
    (hreset : rebuilt = true → d.kernel < c.last ∨ c.last = 0) :
    Exact d (c.record d.kernel) false 0 := by
  have howed := h.owed_eq hreset
  have hroom : c.total.valInt.toNat + owed d.kernel c.last ≤ 2 ^ 53 := by
    rw [howed, h.tally]
    exact hsmall
  obtain ⟨hint, hfloat⟩ := record_exact hroom
  rw [howed, h.tally] at hint
  exact ⟨hfloat.trans h.whole, hint, rfl, h.bounded⟩

theorem Exact.get_eq (h : Exact d c rebuilt 0) (hsmall : d.dropped ≤ 2 ^ 53) :
    c.total.get = d.dropped := by
  have hint : c.total.valInt.toNat = d.dropped := h.tally
  rw [Counter.get, h.whole, Nat.zero_add, hint, float64_of_le hsmall, float64_of_le hsmall]

/-! ## Whole histories -/

theorem after_concat (evs : List Event) (e : Event) : after (evs ++ [e]) = step (after evs) e :=
  List.foldl_concat ..

variable {q : Quantity} {g : Guest}

@[simp] theorem firewall_step_drop (packets bytes : Nat) :
    (step g (.drop packets bytes)).firewall q = (g.firewall q).drop (q.of packets bytes) := by
  cases q <;> rfl

@[simp] theorem firewall_step_rebuild :
    (step g .rebuild).firewall q = (g.firewall q).rebuild := by
  cases q <;> rfl

@[simp] theorem firewall_step_tick (readErr marshalErr publishErr : Option GoError) :
    (step g (.tick readErr marshalErr publishErr)).firewall q = g.firewall q := rfl

@[simp] theorem exported_step_tick (marshalErr publishErr : Option GoError) :
    exported (step g (.tick none marshalErr publishErr)).recorder q =
      (exported g.recorder q).record (g.firewall q).kernel := by
  cases q
  · exact (publishOnce_drops ..).1
  · exact (publishOnce_drops ..).2

/-- The invariant of an orderly history, as long as a `float64` counts what was dropped. -/
def Told (q : Quantity) (history : List Event) : Prop :=
  ((after history).firewall q).dropped ≤ 2 ^ 53 →
    Exact ((after history).firewall q) (exported (after history).recorder q)
      (after history).rebuilt (sinceSample q history)

theorem Told.concat {history : List Event} {e : Event} (h : Told q history)
    (he : OrderlyAt q history e) : Told q (history ++ [e]) := by
  intro hsmall
  rw [after_concat] at hsmall ⊢
  rw [sinceSample, List.foldl_concat]
  cases e with
  | drop packets bytes =>
    rw [firewall_step_drop] at hsmall ⊢
    have hbefore : ((after history).firewall q).dropped + q.of packets bytes ≤ 2 ^ 53 := hsmall
    exact (h (by omega)).drop hbefore
  | rebuild =>
    have hnone : sinceSample q history = 0 := he
    have hexact := h (by rwa [firewall_step_rebuild] at hsmall)
    rw [hnone] at hexact
    rw [firewall_step_rebuild]
    show Exact _ _ _ (sinceSample q history)
    rw [hnone]
    exact hexact.rebuild
  | tick readErr marshalErr publishErr =>
    obtain ⟨rfl, hreset⟩ := he
    rw [firewall_step_tick] at hsmall ⊢
    rw [exported_step_tick]
    have hflag : (step (after history) (.tick none marshalErr publishErr)).rebuilt = false :=
      Bool.and_false _
    rw [hflag]
    exact (h hsmall).record hsmall hreset

theorem told_of_orderly {evs : List Event} (h : Orderly q evs) : Told q evs := by
  have hstart : Told q [] := by
    intro
    cases q <;> exact ⟨rfl, rfl, rfl, le_rfl⟩
  have hrun := h.invariant (I := Told q) (fun _ _ hI he => hI.concat he) hstart
  rwa [List.foldl_append_eq_append, List.nil_append, ← List.flatMap_def,
    List.flatMap_singleton'] at hrun

theorem sinceSample_of_sampled {evs : List Event} {readErr marshalErr publishErr : Option GoError}
    (hlast : evs.getLast? = some (.tick readErr marshalErr publishErr)) :
    sinceSample q evs = 0 := by
  obtain ⟨history, rfl⟩ := List.getLast?_eq_some_iff.mp hlast
  exact List.foldl_concat ..

/-! ## Any samples -/

/-- What is subtracted from the current sample does not exceed it. -/
theorem subtrahend_le (current last : UInt64) : subtrahend current last ≤ current := by
  unfold subtrahend
  split_ifs with hlt
  · exact UInt64.zero_le
  · exact UInt64.not_lt.mp hlt

/-- As long as the added values do not overflow the counter, it holds their sum. -/
theorem foldl_record_eq_sum {samples : List UInt64} {c : DropCounter}
    (hwhole : c.total.valFloat = 0)
    (hsum : c.total.valInt.toNat + (added c.last samples).sum < 2 ^ 64) :
    (samples.foldl DropCounter.record c).total.valFloat = 0 ∧
      (samples.foldl DropCounter.record c).total.valInt.toNat =
        c.total.valInt.toNat + (added c.last samples).sum := by
  induction samples generalizing c with
  | nil => exact ⟨hwhole, rfl⟩
  | cons current samples ih =>
    rw [added, toNat_delta, List.sum_cons] at hsum ⊢
    have hroom : c.total.valInt.toNat + float64 (owed current c.last) < 2 ^ 64 := by omega
    obtain ⟨hint, hfloat⟩ := record_float64 hroom
    have hlast : (c.record current).last = current := rfl
    obtain ⟨hwhole', hsum'⟩ := ih (c := c.record current) (hfloat.trans hwhole)
      (by rw [hlast, hint]; omega)
    rw [hlast, hint] at hsum'
    exact ⟨hwhole', by rw [List.foldl_cons, hsum']; omega⟩

theorem added_append (last : UInt64) (samples : List UInt64) (current : UInt64) :
    ∃ v, added last (samples ++ [current]) = added last samples ++ [v] := by
  induction samples generalizing last with
  | nil => exact ⟨_, rfl⟩
  | cons s samples ih =>
    obtain ⟨v, hv⟩ := ih s
    exact ⟨v, by rw [List.cons_append, added, hv, added, List.cons_append]⟩

theorem exported_recorded (q : Quantity) (samples : List (UInt64 × UInt64)) :
    exported (recorded samples) q = (samplesOf q samples).foldl DropCounter.record {} := by
  induction samples using List.reverseRecOn with
  | nil => cases q <;> rfl
  | append_singleton samples s ih =>
    rw [samplesOf, List.map_append, List.map_singleton, List.foldl_concat]
    rw [samplesOf] at ih
    rw [← ih, recorded, List.foldl_concat]
    cases q <;> rfl

/-- The exported total is the sum of the added values as a `float64`. -/
theorem get_exported_recorded {samples : List (UInt64 × UInt64)}
    (hsum : (added 0 (samplesOf q samples)).sum < 2 ^ 64) :
    (exported (recorded samples) q).total.get =
      float64 (added 0 (samplesOf q samples)).sum := by
  have hstart : ({} : DropCounter).total.valInt.toNat = 0 := rfl
  have hroom : ({} : DropCounter).total.valInt.toNat +
      (added ({} : DropCounter).last (samplesOf q samples)).sum < 2 ^ 64 := by
    rw [hstart, Nat.zero_add]
    exact hsum
  obtain ⟨hwhole, hint⟩ := foldl_record_eq_sum rfl hroom
  rw [exported_recorded, Counter.get, hwhole, hint, hstart, Nat.zero_add, Nat.zero_add,
    float64_float64]

theorem get_recorded_mono {samples : List (UInt64 × UInt64)} {current : UInt64 × UInt64}
    (hsum : (added 0 (samplesOf q (samples ++ [current]))).sum < 2 ^ 64) :
    (exported (recorded samples) q).total.get ≤
      (exported (recorded (samples ++ [current])) q).total.get := by
  rw [get_exported_recorded hsum]
  have hmap : samplesOf q (samples ++ [current]) =
      samplesOf q samples ++ [q.of current.1 current.2] := by
    simp [samplesOf]
  obtain ⟨v, hv⟩ := added_append 0 (samplesOf q samples) (q.of current.1 current.2)
  rw [hmap, hv, List.sum_append] at hsum ⊢
  rw [get_exported_recorded (by omega)]
  exact float64_mono (Nat.le_add_right _ _)

/-- In every history without failed reads in which tables are rebuilt with no drops since the last
sample and a rebuild shows in the next sample, each sample brings the exported total to exactly what
was dropped, up to what a `float64` counts exactly. For any sequence of samples whatsoever, a sample
does not decrease the exported total unless the added values overflow the counter, and the
subtraction that it makes does not wrap. -/
theorem totals_exact_and_monotone (q : Quantity) :
    (∀ evs readErr marshalErr publishErr,
      evs.getLast? = some (.tick readErr marshalErr publishErr) → Orderly q evs →
      ((after evs).firewall q).dropped ≤ 2 ^ 53 →
        (exported (after evs).recorder q).total.get = ((after evs).firewall q).dropped) ∧
    (∀ samples current, (added 0 (samplesOf q (samples ++ [current]))).sum < 2 ^ 64 →
      (exported (recorded samples) q).total.get ≤
        (exported (recorded (samples ++ [current])) q).total.get) ∧
    (∀ samples packets bytes,
      subtrahend (q.of packets bytes) (exported (recorded samples) q).last ≤
        q.of packets bytes) := by
  refine ⟨?_, fun _ _ => get_recorded_mono, fun _ _ _ => subtrahend_le _ _⟩
  intro evs readErr marshalErr publishErr hlast horderly hsmall
  have hexact := told_of_orderly horderly hsmall
  rw [sinceSample_of_sampled hlast] at hexact
  exact hexact.get_eq hsmall

/-- Two tables: the second one is read before it has dropped as many packets as the first. -/
def twoTables : List Event :=
  [.drop 5 500, .tick none none none, .rebuild, .drop 2 700, .tick none none none]

theorem twoTables_exact :
    Orderly .packets twoTables ∧ (after twoTables).packets.dropped = 7 ∧
      (exported (after twoTables).recorder .packets).total.get =
        ((after twoTables).firewall .packets).dropped ∧
      (exported (recorded [(5, 500)]) .bytes).total.get ≤
        (exported (recorded [(5, 500), (2, 90)]) .bytes).total.get :=
  ⟨by decide, by decide,
    (totals_exact_and_monotone .packets).1 twoTables none none none (by decide) (by decide)
      (by decide),
    (totals_exact_and_monotone .bytes).2.1 [(5, 500)] (2, 90) (by decide)⟩

/-- One packet more than a `float64` counts is lost, and two samples of `2 ^ 63` with a rebuild
between them take the exported total back to zero. -/
theorem huge_totals_are_wrong :
    Orderly .packets [.drop (2 ^ 53 + 1) 0, .tick none none none] ∧
      (exported (after [.drop (2 ^ 53 + 1) 0, .tick none none none]).recorder .packets).total.get =
        2 ^ 53 ∧
      (exported (recorded [(.ofNat (2 ^ 63), 0), (0, 0)]) .packets).total.get = 2 ^ 63 ∧
      (exported (recorded [(.ofNat (2 ^ 63), 0), (0, 0), (.ofNat (2 ^ 63), 0)])
        .packets).total.get = 0 := by
  decide +kernel

end WeftAgent.FirewallStatus
