import Mathlib.Data.List.Chain
import Placement.Random.Source

/-!
# Outcomes of draws

A draw is a function of where its source stands, so its outcome is spelled out in two ways. `Yields`
fixes the source and says what comes out and where the source stands then; `Ensures` says what holds
of the value for every source, and that there is one. The second is the form in which the safety of a
search is carried through its steps: nothing is assumed of the words, hence of the draws, beyond the
range that their types give them. What is `Undrawn` ends the same for every source and does not move it.

`Passes` is the run of a loop whose body is a draw, with every state on the way, and `Loop` ties a
recursive search to such runs. What one step preserves of a state, together with those before it, then
holds of every state of a run (`Passes.history`).
-/

namespace Placement

namespace Draw

variable {σ α β : Type}

/-- `x`, drawn with the source at `s`, comes to the value `a` and leaves the source at `s'`. -/
def Yields (x : Draw σ α) (s : σ) (a : α) (s' : σ) : Prop :=
  x.run s = (.ok a, s')

/-- Wherever the source stands, `x` comes to a value, and that value has the property `P`. -/
def Ensures (x : Draw σ α) (P : α → Prop) : Prop :=
  ∀ s, ∃ a s', Yields x s a s' ∧ P a

/-! ## Where a draw ends -/

theorem yields_pure {a b : α} {s s' : σ} :
    Yields (pure a) s b s' ↔ b = a ∧ s' = s := by
  constructor
  · intro h
    cases h
    exact ⟨rfl, rfl⟩
  · rintro ⟨rfl, rfl⟩
    rfl

/-- A sequence goes on where its first part left the source, unless that part stopped short. -/
theorem run_bind (x : Draw σ α) (f : α → Draw σ β) (s : σ) :
    (x >>= f).run s = match x.run s with
      | (.ok a, s') => (f a).run s'
      | (.error e, s') => (.error e, s') := by
  rw [ExceptT.run_bind]
  rcases hx : x.run s with ⟨r, s'⟩
  cases r with
  | ok a =>
      simp only [bind, StateT.bind, hx]
  | error e =>
      simp only [bind, StateT.bind, hx]
      rfl

/-- A sequence ends with a value exactly if its parts do, the second starting where the first left
the source. -/
theorem yields_bind {x : Draw σ α} {f : α → Draw σ β} {s s'' : σ} {b : β} :
    Yields (x >>= f) s b s'' ↔ ∃ a s', Yields x s a s' ∧ Yields (f a) s' b s'' := by
  unfold Yields
  rw [run_bind]
  rcases hx : x.run s with ⟨r, s'⟩
  cases r with
  | ok a =>
      constructor
      · intro h
        exact ⟨a, s', rfl, h⟩
      · rintro ⟨a', s₁, h₁, h₂⟩
        cases h₁
        exact h₂
  | error e =>
      constructor
      · intro h
        cases h
      · rintro ⟨a', s₁, h₁, -⟩
        cases h₁

theorem Yields.bind {x : Draw σ α} {f : α → Draw σ β} {s s' s'' : σ} {a : α} {b : β}
    (hx : Yields x s a s') (hf : Yields (f a) s' b s'') : Yields (x >>= f) s b s'' :=
  yields_bind.mpr ⟨a, s', hx, hf⟩

theorem Yields.run_bind {x : Draw σ α} {f : α → Draw σ β} {s s' : σ} {a : α}
    (hx : Yields x s a s') : (x >>= f).run s = (f a).run s' := by
  rw [Draw.run_bind, hx]

theorem yields_map {x : Draw σ α} {f : α → β} {s s' : σ} {b : β} :
    Yields (f <$> x) s b s' ↔ ∃ a, Yields x s a s' ∧ b = f a := by
  rw [map_eq_pure_bind, yields_bind]
  constructor
  · rintro ⟨a, s₁, hx, hb⟩
    obtain ⟨rfl, rfl⟩ := yields_pure.mp hb
    exact ⟨a, hx, rfl⟩
  · rintro ⟨a, hx, rfl⟩
    exact ⟨a, s', hx, yields_pure.mpr ⟨rfl, rfl⟩⟩

/-- The outcome of a draw is settled by where its source stands. -/
theorem Yields.unique {x : Draw σ α} {s s₁ s₂ : σ} {a b : α}
    (ha : Yields x s a s₁) (hb : Yields x s b s₂) : a = b ∧ s₁ = s₂ := by
  have h := Eq.trans (Eq.symm ha) hb
  cases h
  exact ⟨rfl, rfl⟩

/-- A computation that only moves the source ends where it moves it. -/
theorem yields_lift {x : StateM σ α} {s s' : σ} {a : α} :
    Yields (liftM x : Draw σ α) s a s' ↔ x.run s = (a, s') := by
  have h : (liftM x : Draw σ α).run s = (.ok (x.run s).1, (x.run s).2) := rfl
  unfold Yields
  rw [h]
  constructor
  · intro h
    cases h
    rfl
  · intro h
    rw [h]

theorem yields_checked {e : Except Breach α} {s s' : σ} {a : α} :
    Yields (checked e) s a s' ↔ e = .ok a ∧ s' = s := by
  cases e with
  | ok b =>
      rw [checked, yields_pure, Except.ok.injEq, eq_comm]
  | error cause =>
      constructor
      · intro h
        cases h
      · rintro ⟨h, -⟩
        cases h

/-! ## What holds of every outcome -/

theorem Ensures.mono {x : Draw σ α} {P Q : α → Prop} (hx : Ensures x P) (h : ∀ a, P a → Q a) :
    Ensures x Q := by
  intro s
  obtain ⟨a, s', hy, ha⟩ := hx s
  exact ⟨a, s', hy, h a ha⟩

/-- The value a draw came to has whatever the draw ensures. -/
theorem Ensures.of_yields {x : Draw σ α} {P : α → Prop} (hx : Ensures x P) {s s' : σ} {a : α}
    (h : Yields x s a s') : P a := by
  obtain ⟨b, s₁, hy, hb⟩ := hx s
  obtain ⟨rfl, -⟩ := h.unique hy
  exact hb

theorem ensures_pure {a : α} {P : α → Prop} (h : P a) : Ensures (pure a : Draw σ α) P :=
  fun s => ⟨a, s, rfl, h⟩

theorem Ensures.bind {x : Draw σ α} {f : α → Draw σ β} {P : α → Prop} {Q : β → Prop}
    (hx : Ensures x P) (hf : ∀ a, P a → Ensures (f a) Q) : Ensures (x >>= f) Q := by
  intro s
  obtain ⟨a, s', hy, ha⟩ := hx s
  obtain ⟨b, s'', hz, hb⟩ := hf a ha s'
  exact ⟨b, s'', hy.bind hz, hb⟩

theorem ensures_checked {e : Except Breach α} {a : α} {P : α → Prop} (he : e = .ok a) (h : P a) :
    Ensures (checked e : Draw σ α) P :=
  fun s => ⟨a, s, yields_checked.mpr ⟨he, rfl⟩, h⟩

theorem ensures_lift {x : StateM σ α} {P : α → Prop} (h : ∀ s, P (x.run s).1) :
    Ensures (liftM x : Draw σ α) P :=
  fun s => ⟨_, _, yields_lift.mpr rfl, h s⟩

/-- Values drawn one after the other each have what a single draw ensures. -/
theorem Ensures.times {x : Draw σ α} {P : α → Prop} (hx : Ensures x P) (n : Nat) :
    Ensures (times x n) fun values => ∀ a ∈ values, P a := by
  induction n with
  | zero =>
      have h0 : Draw.times x 0 = pure #v[] := Vector.ofFnM_zero
      rw [h0]
      exact ensures_pure (fun a ha => absurd ha (Vector.not_mem_empty a))
  | succ n ih =>
      rw [times_succ]
      refine ih.bind fun values hvalues => hx.bind fun value hvalue => ensures_pure fun a ha => ?_
      rcases Vector.mem_push.mp ha with h | rfl
      · exact hvalues a h
      · exact hvalue

/-- Going through a list, what each value adds to is in the end what all of them have added to. -/
theorem ensures_foldlM {f : β → α → Draw σ β} {I : List α → β → Prop} (xs : List α)
    (hstep : ∀ done b, ∀ x ∈ xs, I done b → Ensures (f b x) (I (done ++ [x]))) (done : List α) {b : β}
    (hb : I done b) : Ensures (xs.foldlM f b) (I (done ++ xs)) := by
  induction xs generalizing done b with
  | nil =>
      rw [List.append_nil]
      exact ensures_pure hb
  | cons x xs ih =>
      rw [List.foldlM_cons]
      refine (hstep done b x List.mem_cons_self hb).bind fun c hc => ?_
      rw [List.append_cons]
      exact ih (fun done b y hy => hstep done b y (List.mem_cons_of_mem x hy)) _ hc

section Source

variable [RandomSource σ]

/-- All that is known of an index is its range, which its type gives. -/
theorem ensures_index {bound : Nat} (hb : 0 < bound) :
    Ensures (index bound : Draw σ (Fin bound)) fun _ => True := by
  rw [index, dif_pos hb]
  exact ensures_lift fun _ => trivial

/-- A number can be drawn from a range that is not empty, and lies in it. -/
theorem ensures_between {low high : ℤ} (h : low < high) :
    Ensures (between low high : Draw σ ℤ) fun k => low ≤ k ∧ k < high := by
  refine (ensures_index (by omega)).bind fun offset _ => ensures_pure ?_
  have hoffset := offset.isLt
  omega

/-- A pair can be drawn as soon as there are two indices, and its parts differ. -/
theorem ensures_distinctPair {bound : Nat} (hb : 2 ≤ bound) :
    Ensures (distinctPair bound : Draw σ (Fin bound × Fin bound)) fun pair => pair.1 ≠ pair.2 := by
  refine (ensures_index (by omega)).bind fun first _ => ?_
  refine (ensures_index (by omega)).bind fun k _ => ?_
  exact ensures_pure (skipping_ne first k).symm

/-- A pair that was drawn shows that there were two indices. -/
theorem two_le_of_distinctPair {bound : Nat} {pair : Fin bound × Fin bound} {s s' : σ}
    (h : Yields (distinctPair bound) s pair s') : 2 ≤ bound := by
  obtain ⟨first, s₁, -, h₁⟩ := yields_bind.mp h
  obtain ⟨k, -⟩ := yields_bind.mp h₁
  have hk := k.isLt
  omega

end Source

/-! ## Computations that do not draw -/

/-- The outcome has nothing to do with the source, and the source is left where it is. -/
def Undrawn (x : Draw σ α) : Prop :=
  ∃ outcome, ∀ s, x.run s = (outcome, s)

theorem undrawn_pure (a : α) : Undrawn (pure a : Draw σ α) :=
  ⟨.ok a, fun _ => rfl⟩

theorem undrawn_throw (cause : Abort) : Undrawn (throw cause : Draw σ α) :=
  ⟨.error cause, fun _ => rfl⟩

theorem undrawn_checked (e : Except Breach α) : Undrawn (checked e : Draw σ α) := by
  cases e with
  | ok a => exact undrawn_pure a
  | error cause => exact undrawn_throw (.breach cause)

theorem Undrawn.bind {x : Draw σ α} {f : α → Draw σ β} (hx : Undrawn x)
    (hf : ∀ a, Undrawn (f a)) : Undrawn (x >>= f) := by
  obtain ⟨outcome, hx⟩ := hx
  cases outcome with
  | error cause =>
      refine ⟨.error cause, fun s => ?_⟩
      rw [run_bind, hx]
  | ok a =>
      obtain ⟨outcome, ha⟩ := hf a
      refine ⟨outcome, fun s => ?_⟩
      rw [run_bind, hx]
      exact ha s

/-- What comes behind a stop is not reached, even if it would draw. -/
theorem undrawn_throw_bind (cause : Abort) (f : α → Draw σ β) : Undrawn (throw cause >>= f) :=
  ⟨.error cause, fun _ => rfl⟩

/-! ## Runs of a loop -/

/-- Repeating the draw `f` leads from the state and source `b` to `c`, through the states and sources
`past`, which `f` was drawn from in this order. -/
inductive Passes (f : β → Draw σ β) (b : β × σ) : List (β × σ) → β × σ → Prop
  | start : Passes f b [] b
  | step {past : List (β × σ)} {c d : β × σ} :
      Passes f b past c → Yields (f c.1) c.2 d.1 d.2 → Passes f b (past ++ [c]) d

variable {f : β → Draw σ β} {b c : β × σ} {past : List (β × σ)}

/-- A run can be extended at its beginning as well. -/
theorem Passes.cons {a : β × σ} (h : Yields (f a.1) a.2 b.1 b.2) (hp : Passes f b past c) :
    Passes f a (a :: past) c := by
  induction hp with
  | start => exact Passes.step Passes.start h
  | step _ hy ih => exact ih.step hy

/-- What holds at the start, and of each state together with the states before it once it held one
step earlier, holds at the end of every run. -/
theorem Passes.history {I : List (β × σ) → β × σ → Prop} (hp : Passes f b past c) (h0 : I [] b)
    (hstep : ∀ past c d, Passes f b past c → I past c → Yields (f c.1) c.2 d.1 d.2 →
      I (past ++ [c]) d) : I past c := by
  induction hp with
  | start => exact h0
  | step hp hy ih => exact hstep _ _ _ hp ih hy

/-- What every step of a run relates holds between each state and the next. -/
theorem Passes.isChain {R : β × σ → β × σ → Prop} (hp : Passes f b past c)
    (hstep : ∀ past c d, Passes f b past c → Yields (f c.1) c.2 d.1 d.2 → R c d) :
    (past ++ [c]).IsChain R := by
  refine hp.history (I := fun past c => (past ++ [c]).IsChain R) (List.isChain_singleton b) ?_
  intro past c d hp hchain hy
  rw [List.append_assoc]
  exact List.isChain_append_cons_cons.mpr
    ⟨hchain, hstep past c d hp hy, List.isChain_singleton d⟩

/-- Each state of a run is where the run up to it stands. -/
theorem Passes.split {front back : List (β × σ)} {u : β × σ} (hp : Passes f b past c)
    (h : past ++ [c] = front ++ u :: back) : Passes f b front u := by
  induction hp generalizing back with
  | start =>
      cases front with
      | nil =>
          cases h
          exact Passes.start
      | cons a front =>
          simp at h
  | @step past c d hp hy ih =>
      rcases List.eq_nil_or_concat back with rfl | ⟨back, v, rfl⟩
      · obtain ⟨hfront, hlast⟩ := List.append_inj' h rfl
        cases hlast
        rw [← hfront]
        exact hp.step hy
      · rw [List.concat_eq_append, ← List.cons_append, ← List.append_assoc] at h
        exact ih (List.append_inj' h rfl).1

theorem Passes.head?_eq (hp : Passes f b past c) : (past ++ [c]).head? = some b := by
  refine hp.history (I := fun past c => (past ++ [c]).head? = some b) rfl ?_
  intro past c d _ h _
  rw [List.head?_append, h]
  rfl

theorem Passes.eq_of_nil (hp : Passes f b [] c) : c = b := by
  generalize hnil : [] = past at hp
  cases hp with
  | start => rfl
  | step => simp at hnil

theorem Passes.uncons {u : β × σ} (hp : Passes f b (u :: past) c) :
    u = b ∧ ∃ d, Yields (f b.1) b.2 d.1 d.2 ∧ Passes f d past c := by
  generalize hall : u :: past = all at hp
  induction hp generalizing past with
  | start => cases hall
  | @step front c d hp hy ih =>
      cases front with
      | nil =>
          obtain rfl := hp.eq_of_nil
          cases hall
          exact ⟨rfl, d, hy, Passes.start⟩
      | cons v front =>
          obtain ⟨rfl, rfl⟩ := List.cons.inj hall
          obtain ⟨hu, e, he, hrest⟩ := ih rfl
          exact ⟨hu, e, he, hrest.step hy⟩

/-- Of two runs from the same state, the longer one goes on from where the shorter one ended. -/
theorem Passes.rest {c' : β × σ} {past' : List (β × σ)} (hp : Passes f b past c)
    (hp' : Passes f b past' c') (hle : past.length ≤ past'.length) :
    ∃ more, past' = past ++ more ∧ Passes f c more c' := by
  induction hp with
  | start => exact ⟨past', rfl, hp'⟩
  | @step past c d hp hy ih =>
      rw [List.length_append, List.length_singleton] at hle
      obtain ⟨more, rfl, hmore⟩ := ih (by omega)
      cases more with
      | nil =>
          rw [List.append_nil] at hle
          omega
      | cons u more =>
          obtain ⟨rfl, e, he, hrest⟩ := hmore.uncons
          obtain ⟨hvalue, hsource⟩ := hy.unique he
          obtain rfl : d = e := Prod.ext hvalue hsource
          exact ⟨more, by simp, hrest⟩

/-- The states of a run come first among those of a run that goes on from its end. -/
theorem Passes.isPrefix {c' : β × σ} {more : List (β × σ)} (h : Passes f c more c')
    (past : List (β × σ)) : past ++ [c] <+: past ++ more ++ [c'] := by
  have hhead := h.head?_eq
  rw [List.append_assoc]
  cases hcourse : more ++ [c'] with
  | nil => simp at hcourse
  | cons u rest =>
      rw [hcourse] at hhead
      cases hhead
      exact ⟨rest, by simp⟩

/-- `loop` repeats `f` at most as often as it is told to, and ends early in a state where `stop` gives
the flag to end with. -/
structure Loop (f : β → Draw σ β) (stop : β → Option Bool)
    (loop : Nat → β → Draw σ (β × Bool)) : Prop where
  zero : ∀ x, loop 0 x = pure (x, false)
  succ : ∀ n x, loop (n + 1) x = match stop x with
    | some flag => pure (x, flag)
    | none => f x >>= loop n

/-- How a loop of at most `n` rounds went: it passed states that are no place to stop, until it came
to one or the rounds were used up. -/
structure Ran (f : β → Draw σ β) (stop : β → Option Bool) (n : Nat) (b : β × σ)
    (past : List (β × σ)) (c : β × σ) (flag : Bool) : Prop where
  passes : Passes f b past c
  going : ∀ u ∈ past, stop u.1 = none
  ended : past.length < n ∧ stop c.1 = some flag ∨ past.length = n ∧ flag = false

theorem Ran.length_le {stop : β → Option Bool} {n : Nat} {flag : Bool}
    (h : Ran f stop n b past c flag) : past.length ≤ n := by
  rcases h.ended with ⟨hlt, -⟩ | ⟨heq, -⟩
  · exact hlt.le
  · exact heq.le

/-- Each number below the length of a run is that of the states before one where it went on. -/
theorem Ran.going_at {stop : β → Option Bool} {n i : Nat} {flag : Bool}
    (h : Ran f stop n b past c flag) (hi : i < past.length) :
    ∃ front u, Passes f b front u ∧ front.length = i ∧ stop u.1 = none := by
  have hsplit : past ++ [c] = past.take i ++ past[i] :: (past.drop (i + 1) ++ [c]) := by
    rw [← List.cons_append, ← List.drop_eq_getElem_cons hi, ← List.append_assoc,
      List.take_append_drop]
  refine ⟨past.take i, past[i], h.passes.split hsplit, ?_, h.going _ (List.getElem_mem hi)⟩
  rw [List.length_take, Nat.min_eq_left hi.le]

/-- With more rounds a loop goes the same way, and on from where it had to end. -/
theorem Ran.rest {stop : β → Option Bool} {n n' : Nat} {flag flag' : Bool} {c' : β × σ}
    {past' : List (β × σ)} (h : Ran f stop n b past c flag) (h' : Ran f stop n' b past' c' flag')
    (hn : n ≤ n') : ∃ more, past' = past ++ more ∧ Passes f c more c' := by
  refine h.passes.rest h'.passes (Nat.le_of_not_lt fun hlt => ?_)
  obtain ⟨more, hpast, hmore⟩ := h'.passes.rest h.passes hlt.le
  have hle := h.length_le
  -- the longer loop ended early, in a state where the shorter one went on
  have hstop : stop c'.1 = some flag' := by
    rcases h'.ended with ⟨-, hstop⟩ | ⟨hlen, -⟩
    · exact hstop
    · omega
  cases more with
  | nil => simp [hpast] at hlt
  | cons u more =>
      obtain ⟨rfl, -⟩ := hmore.uncons
      have hgo := h.going u (by simp [hpast])
      rw [hstop] at hgo
      cases hgo

/-- A loop whose body keeps an invariant comes to an end, and the invariant holds there. -/
theorem Loop.ran {stop : β → Option Bool} {loop : Nat → β → Draw σ (β × Bool)} {I : β → Prop}
    (hl : Loop f stop loop) (hstep : ∀ x, I x → Ensures (f x) I) (n : Nat) (b : β × σ)
    (hb : I b.1) : ∃ past c flag, Yields (loop n b.1) b.2 (c.1, flag) c.2 ∧
      Ran f stop n b past c flag ∧ I c.1 := by
  induction n generalizing b with
  | zero =>
      refine ⟨[], b, false, ?_, ⟨Passes.start, by simp, Or.inr ⟨rfl, rfl⟩⟩, hb⟩
      rw [hl.zero]
      rfl
  | succ n ih =>
      cases hs : stop b.1 with
      | some flag =>
          refine ⟨[], b, flag, ?_, ⟨Passes.start, by simp, Or.inl ⟨Nat.succ_pos n, hs⟩⟩, hb⟩
          rw [hl.succ, hs]
          rfl
      | none =>
          obtain ⟨x, s, hy, hx⟩ := hstep b.1 hb b.2
          obtain ⟨past, c, flag, hz, hr, hc⟩ := ih (x, s) hx
          refine ⟨b :: past, c, flag, ?_, ⟨hr.passes.cons hy, ?_, ?_⟩, hc⟩
          · rw [hl.succ, hs]
            exact hy.bind hz
          · intro u hu
            rcases List.mem_cons.mp hu with rfl | h
            · exact hs
            · exact hr.going u h
          · rcases hr.ended with ⟨hlt, hstop⟩ | ⟨hlen, hflag⟩
            · exact Or.inl ⟨Nat.succ_lt_succ hlt, hstop⟩
            · exact Or.inr ⟨congrArg Nat.succ hlen, hflag⟩

end Draw

end Placement
