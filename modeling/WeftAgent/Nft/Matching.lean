import WeftAgent.Nft.Kernel

/-!
# What rules match

A group of expressions *tests* a condition if it lets a packet on to the next expression exactly
when the condition holds of it, whatever the registers contain. Most groups load a value first
(`Loads`) and compare it then. Groups are composed by `Tests.append`; a group with a verdict behind
it is a rule that *decides* the packets of the condition (`Tests.decides`), and a chain of accepting
rules is understood rule by rule (`runRules_accepting`).

All of this holds for every kernel whose expressions keep the laws of `ExprMachine`.
-/

namespace WeftAgent.Nft

open WeftAgent.Go

/-- The expressions let a packet on exactly when `P` holds of it. -/
structure Tests (E : ExprMachine) (es : List Expr) (P : Packet → Prop) : Prop where
  pass : ∀ {p} regs, P p → ∃ regs', E.runRule p regs es = (es, regs', .next)
  fail : ∀ {p} regs, ¬ P p → ∃ regs', E.runRule p regs es = (es, regs', .leave)

/-- The rule has the verdict `v` for the packets of `P` and none for the others. -/
structure Decides (E : ExprMachine) (v : Verdict) (r : Rule) (P : Packet → Prop) : Prop where
  pass : ∀ {p} regs, P p → ∃ regs', E.runRule p regs r = (r, regs', .done v)
  fail : ∀ {p} regs, ¬ P p → ∃ regs', E.runRule p regs r = (r, regs', .leave)

variable {E : ExprMachine} {p : Packet} {regs regs' : E.Regs} {P Q : Packet → Prop}
  {e : Expr} {es fs : List Expr} {v : Verdict}

/-! ## Composition -/

theorem runRule_cons_next (h : E.eval p regs e = (regs', .next)) :
    E.runRule p regs (e :: es) = (e.count p :: (E.runRule p regs' es).1,
      (E.runRule p regs' es).2) := by
  rw [ExprMachine.runRule, h]

theorem runRule_cons_leave (h : E.eval p regs e = (regs', .leave)) :
    E.runRule p regs (e :: es) = (e :: es, regs', .leave) := by
  rw [ExprMachine.runRule, h]

theorem runRule_append_next {es' : Rule} (h : E.runRule p regs es = (es', regs', .next)) :
    E.runRule p regs (es ++ fs) =
      (es' ++ (E.runRule p regs' fs).1, (E.runRule p regs' fs).2) := by
  induction es generalizing es' regs with
  | nil =>
    simp only [ExprMachine.runRule, Prod.mk.injEq] at h
    obtain ⟨rfl, rfl, -⟩ := h
    rfl
  | cons e es ih =>
    rcases heval : E.eval p regs e with ⟨regs₁, flow⟩
    cases flow with
    | next =>
      rw [runRule_cons_next heval, Prod.mk.injEq] at h
      obtain ⟨rfl, hrest⟩ := h
      rw [List.cons_append, runRule_cons_next heval, ih (Prod.ext rfl hrest)]
      rfl
    | leave => simp [ExprMachine.runRule, heval] at h
    | done v => simp [ExprMachine.runRule, heval] at h

theorem runRule_append_leave {es' : Rule} (h : E.runRule p regs es = (es', regs', .leave)) :
    E.runRule p regs (es ++ fs) = (es' ++ fs, regs', .leave) := by
  induction es generalizing es' regs with
  | nil => simp [ExprMachine.runRule] at h
  | cons e es ih =>
    rcases heval : E.eval p regs e with ⟨regs₁, flow⟩
    cases flow with
    | next =>
      rw [runRule_cons_next heval, Prod.mk.injEq] at h
      obtain ⟨rfl, hrest⟩ := h
      rw [List.cons_append, runRule_cons_next heval, ih (Prod.ext rfl hrest)]
      rfl
    | leave =>
      rw [runRule_cons_leave heval, Prod.mk.injEq, Prod.mk.injEq] at h
      obtain ⟨rfl, rfl, -⟩ := h
      exact runRule_cons_leave heval
    | done v => simp [ExprMachine.runRule, heval] at h

theorem Tests.nil : Tests E [] fun _ => True :=
  ⟨fun regs _ => ⟨regs, rfl⟩, fun _ h => absurd trivial h⟩

theorem Tests.append (hes : Tests E es P) (hfs : Tests E fs Q) :
    Tests E (es ++ fs) fun p => P p ∧ Q p where
  pass := by
    rintro p regs ⟨hP, hQ⟩
    obtain ⟨regs₁, h₁⟩ := hes.pass regs hP
    obtain ⟨regs₂, h₂⟩ := hfs.pass regs₁ hQ
    exact ⟨regs₂, by rw [runRule_append_next h₁, h₂]⟩
  fail := by
    intro p regs h
    by_cases hP : P p
    · obtain ⟨regs₁, h₁⟩ := hes.pass regs hP
      obtain ⟨regs₂, h₂⟩ := hfs.fail regs₁ fun hQ => h ⟨hP, hQ⟩
      exact ⟨regs₂, by rw [runRule_append_next h₁, h₂]⟩
    · obtain ⟨regs₁, h₁⟩ := hes.fail regs hP
      exact ⟨regs₁, runRule_append_leave h₁⟩

theorem Tests.congr (h : Tests E es P) (hiff : ∀ p, Q p ↔ P p) : Tests E es Q :=
  ⟨fun regs hQ => h.pass regs ((hiff _).mp hQ), fun regs hQ => h.fail regs ((hiff _).not.mp hQ)⟩

/-- A test with a verdict behind it. -/
theorem Tests.decides (h : Tests E es P) (v : Verdict) :
    Decides E v (es ++ [.verdict v]) P where
  pass := by
    intro p regs hP
    obtain ⟨regs', hrun⟩ := h.pass regs hP
    refine ⟨regs', ?_⟩
    rw [runRule_append_next hrun, ExprMachine.runRule, E.eval_verdict]
  fail := by
    intro p regs hP
    obtain ⟨regs', hrun⟩ := h.fail regs hP
    exact ⟨regs', runRule_append_leave hrun⟩

/-! ## Single tests -/

theorem xor_zeros (xs : List UInt8) {n : Nat} (h : xs.length = n) :
    List.zipWith (· ^^^ ·) xs (List.replicate n 0) = xs := by
  induction xs generalizing n with
  | nil => simp
  | cons x xs ih =>
    subst h
    rw [List.length_cons, List.replicate_succ, List.zipWith_cons_cons, ih rfl, UInt8.xor_zero]

/-- The expressions leave the value in the register, or leave the rule if there is none. -/
structure Loads (E : ExprMachine) (es : List Expr) (register : Nat)
    (value : Packet → Option (List UInt8)) : Prop where
  some : ∀ {p bs} regs, value p = some bs →
    ∃ regs', E.runRule p regs es = (es, regs', .next) ∧ E.load regs' register bs.length = bs
  none : ∀ {p} regs, value p = none → ∃ regs', E.runRule p regs es = (es, regs', .leave)

section Loads

variable {value : Packet → Option (List UInt8)} {register len : Nat}

/-- A single load. -/
theorem Loads.of_loads (hcount : ∀ p, e.count p = e)
    (hloads : ∀ p, e.loads p = Option.some (register, value p))
    (hlen : ∀ p bs, value p = Option.some bs → bs.length ≤ registerSize) :
    Loads E [e] register value where
  some := by
    intro p bs regs hval
    have hsome : e.loads p = Option.some (register, Option.some bs) := by rw [hloads, hval]
    obtain ⟨regs', heval, hload⟩ := E.eval_load regs hsome (hlen p bs hval)
    refine ⟨regs', ?_, hload⟩
    rw [runRule_cons_next heval, hcount]
    rfl
  none := by
    intro p regs hval
    have hnone : e.loads p = Option.some (register, Option.none) := by rw [hloads, hval]
    obtain ⟨regs', heval⟩ := E.eval_missing regs hnone
    exact ⟨regs', runRule_cons_leave heval⟩

theorem length_metaValue {key : MetaKey} {bs : List UInt8} (h : p.metaValue key = some bs) :
    bs.length ≤ registerSize := by
  cases key with
  | nfproto =>
    obtain rfl := Option.some.inj h
    simp [registerSize]
  | l4proto =>
    obtain ⟨proto, -, rfl⟩ := Option.map_eq_some_iff.mp h
    simp [registerSize]
  | iifname =>
    obtain rfl := Option.some.inj h
    have hshort := p.iifname.short
    simp [registerSize]
    omega

theorem loads_meta (key : MetaKey) : Loads E [.metaLoad key register] register (·.metaValue key) :=
  .of_loads (fun _ => rfl) (fun _ => rfl) fun _ _ => length_metaValue

theorem loads_ctState :
    Loads E [.ctState register] register fun p => Option.some (hostBytes p.ctState.bit) := by
  refine .of_loads (fun _ => rfl) (fun _ => rfl) fun p bs hbs => ?_
  obtain rfl := Option.some.inj hbs
  simp [hostBytes, registerSize]

theorem length_of_field {bytes bs : List UInt8} {offset : Nat}
    (h : field bytes offset len = some bs) : bs.length = len := by
  unfold field at h
  split_ifs at h with hle
  obtain rfl := Option.some.inj h
  simp
  omega

theorem length_of_payload {base : PayloadBase} {offset : Nat} {bs : List UInt8}
    (h : p.payload base offset len = some bs) : bs.length = len := by
  cases base with
  | networkHeader => exact length_of_field h
  | transportHeader =>
    obtain ⟨bytes, -, hfield⟩ := Option.bind_eq_some_iff.mp h
    exact length_of_field hfield

theorem loads_payload (base : PayloadBase) (offset : Nat) (hlen : len ≤ registerSize) :
    Loads E [.payload base offset len register] register (·.payload base offset len) := by
  refine .of_loads (fun _ => rfl) (fun _ => rfl) fun p bs hbs => ?_
  rwa [length_of_payload hbs]

/-- A loaded value under a mask. -/
theorem Loads.mask (h : Loads E es register value) {mask : List UInt8}
    (hsize : mask.length ≤ registerSize)
    (hlen : ∀ p bs, value p = Option.some bs → bs.length = mask.length) :
    Loads E (es ++ [.bitwise register register mask.length mask (List.replicate mask.length 0)])
      register fun p => (value p).map (maskBytes · mask) where
  some := by
    intro p bs regs hval
    obtain ⟨xs, hxs, rfl⟩ := Option.map_eq_some_iff.mp hval
    obtain ⟨regs₁, hrun, hload⟩ := h.some regs hxs
    have hlength := hlen p xs hxs
    have hmasked : (maskBytes xs mask).length = mask.length := by
      rw [length_maskBytes hlength, hlength]
    obtain ⟨regs₂, heval, hload'⟩ := E.eval_bitwise p regs₁ register register hsize
      (List.length_replicate (n := mask.length) (a := 0))
    rw [hlength] at hload
    rw [hload, xor_zeros _ hmasked] at hload'
    refine ⟨regs₂, ?_, by rw [hmasked, hload']⟩
    rw [runRule_append_next hrun, runRule_cons_next heval]
    rfl
  none := by
    intro p regs hval
    obtain ⟨regs', hrun⟩ := h.none regs (Option.map_eq_none_iff.mp hval)
    exact ⟨regs', runRule_append_leave hrun⟩

/-- A loaded value, and an expression that lets it on or leaves the rule. -/
theorem Loads.tests (h : Loads E es register value) {C : List UInt8 → Prop}
    (hcount : ∀ p, e.count p = e)
    (hpass : ∀ p bs regs, value p = Option.some bs → E.load regs register bs.length = bs → C bs →
      E.eval p regs e = (regs, .next))
    (hfail : ∀ p bs regs, value p = Option.some bs → E.load regs register bs.length = bs →
      ¬ C bs → E.eval p regs e = (regs, .leave)) :
    Tests E (es ++ [e]) fun p => ∃ bs, value p = Option.some bs ∧ C bs where
  pass := by
    rintro p regs ⟨bs, hval, hC⟩
    obtain ⟨regs', hrun, hload⟩ := h.some regs hval
    refine ⟨regs', ?_⟩
    rw [runRule_append_next hrun, runRule_cons_next (hpass p bs regs' hval hload hC), hcount]
    rfl
  fail := by
    intro p regs hno
    cases hval : value p with
    | none =>
      obtain ⟨regs', hrun⟩ := h.none regs hval
      exact ⟨regs', runRule_append_leave hrun⟩
    | some bs =>
      obtain ⟨regs', hrun, hload⟩ := h.some regs hval
      have hleave := hfail p bs regs' hval hload fun hC => hno ⟨bs, hval, hC⟩
      exact ⟨regs', by rw [runRule_append_next hrun, runRule_cons_leave hleave]⟩

theorem Loads.cmp_eq (h : Loads E es register value) {data : List UInt8}
    (hsize : data.length ≤ registerSize)
    (hlen : ∀ p bs, value p = Option.some bs → bs.length = data.length) :
    Tests E (es ++ [.cmp .eq register data]) fun p => value p = Option.some data := by
  refine (h.tests (C := (· = data)) (fun _ => rfl) ?_ ?_).congr fun p => ?_
  · rintro p bs regs hval hload rfl
    simp [E.eval_cmp p regs .eq register hsize, CmpOp.flow, hload]
  · intro p bs regs hval hload hne
    rw [hlen p bs hval] at hload
    simp [E.eval_cmp p regs .eq register hsize, CmpOp.flow, hload, hne]
  · simp

theorem Loads.cmp_neq (h : Loads E es register value) {data : List UInt8}
    (hsize : data.length ≤ registerSize)
    (hlen : ∀ p bs, value p = Option.some bs → bs.length = data.length) :
    Tests E (es ++ [.cmp .neq register data])
      fun p => ∃ bs, value p = Option.some bs ∧ bs ≠ data := by
  refine h.tests (fun _ => rfl) ?_ ?_
  · intro p bs regs hval hload hne
    rw [hlen p bs hval] at hload
    simp [E.eval_cmp p regs .neq register hsize, CmpOp.flow, hload, hne]
  · intro p bs regs hval hload heq
    obtain rfl := not_not.mp heq
    simp [E.eval_cmp p regs .neq register hsize, CmpOp.flow, hload]

/-- A loaded number between two others. -/
theorem Loads.range_eq (h : Loads E es register value) {fromData toData : List UInt8}
    (hsize : fromData.length ≤ registerSize) (hto : toData.length = fromData.length)
    (hlen : ∀ p bs, value p = Option.some bs → bs.length = fromData.length) :
    Tests E (es ++ [.range .eq register fromData toData]) fun p =>
      ∃ bs, value p = Option.some bs ∧ beNat fromData ≤ beNat bs ∧ beNat bs ≤ beNat toData := by
  refine h.tests (fun _ => rfl) ?_ ?_
  · intro p bs regs hval hload hC
    rw [hlen p bs hval] at hload
    rw [E.eval_range p regs .eq register hsize hto, hload, decide_eq_true hC]
    rfl
  · intro p bs regs hval hload hC
    rw [hlen p bs hval] at hload
    rw [E.eval_range p regs .eq register hsize hto, hload, decide_eq_false hC]
    rfl

end Loads

/-! ## Chains of accepting rules -/

theorem runRules_cons_done {r r' : Rule} {rs : List Rule}
    (h : E.runRule p regs r = (r', regs', .done v)) :
    E.runRules p regs (r :: rs) = (r' :: rs, some v) := by
  rw [ExprMachine.runRules, h]

theorem runRules_cons_leave {r r' : Rule} {rs : List Rule}
    (h : E.runRule p regs r = (r', regs', .leave)) :
    E.runRules p regs (r :: rs) = (r' :: (E.runRules p regs' rs).1, (E.runRules p regs' rs).2) := by
  rw [ExprMachine.runRules, h]

/-- A packet that one of the rules accepts is accepted, and the rules stay as they are; any other
packet gets to the rules behind them. -/
theorem runRules_accepting {rules : List Rule} {conds : List (Packet → Prop)}
    (h : List.Forall₂ (Decides E .accept) rules conds) (p : Packet) (regs : E.Regs)
    (rest : List Rule) :
    ((∃ P ∈ conds, P p) → E.runRules p regs (rules ++ rest) = (rules ++ rest, some .accept)) ∧
      ((∀ P ∈ conds, ¬ P p) → ∃ regs', E.runRules p regs (rules ++ rest) =
        (rules ++ (E.runRules p regs' rest).1, (E.runRules p regs' rest).2)) := by
  induction h generalizing regs with
  | nil => exact ⟨by simp, fun _ => ⟨regs, rfl⟩⟩
  | @cons r P rules conds hr hrules ih =>
    constructor
    · rintro ⟨P', hP', hp⟩
      by_cases hhead : P p
      · obtain ⟨regs', hrun⟩ := hr.pass regs hhead
        exact runRules_cons_done hrun
      · obtain ⟨regs', hrun⟩ := hr.fail regs hhead
        have htail : ∃ P ∈ conds, P p := by
          rcases List.mem_cons.mp hP' with rfl | hmem
          · exact absurd hp hhead
          · exact ⟨P', hmem, hp⟩
        rw [List.cons_append, runRules_cons_leave hrun, (ih regs').1 htail]
    · intro hnone
      obtain ⟨regs₁, hrun⟩ := hr.fail regs (hnone P List.mem_cons_self)
      obtain ⟨regs', hrest⟩ := (ih regs₁).2 fun P' hP' => hnone P' (List.mem_cons_of_mem _ hP')
      refine ⟨regs', ?_⟩
      rw [List.cons_append, runRules_cons_leave hrun, hrest]
      rfl

end WeftAgent.Nft
