import MachDebug.Program.Basic

/-!
# Programs under interference

A program runs while other parties change the state between its atomic operations. A contract
fixes what the others may do (the rely), what the program's own operations do (the guarantee),
and which operations the schedules under consideration permit. `Safe` is the weakest condition
under which a program keeps the guarantee at every operation and ends in its postcondition,
whatever the others do in between.

## Main definitions

* `Contract Op σ`: a rely, a guarantee and the permitted operations
* `Prog.Safe`: the program meets its contract and its postconditions from a state
* `Prog.PermittedStep`, `Prog.advance`: one permitted atomic operation
* `Terms`, `Terms.Safe`: contracts and assertions about a view of the state

## Main results

* `Prog.Safe.rely`: safety survives the interference of the others
* `Prog.Safe.step`: a permitted operation keeps the guarantee and leaves a safe program
* `Prog.Safe.bind`, `Prog.Safe.op`, `Prog.Safe.spin`: the rules of composition
* `Terms.Safe.op`, `Terms.Safe.read`, `Terms.Safe.uses`: the rules for a view
-/

namespace Program

universe u

variable {Op : Type → Type} {ε α γ : Type} {σ : Type u}

/-- What the others may do between two operations, what an operation of the program does, and
which operations are permitted, by the state before and the answer. -/
structure Contract (Op : Type → Type) (σ : Type u) where
  rely : σ → σ → Prop
  guar : σ → σ → Prop
  permit : {β : Type} → Op β → σ → β → Prop
  rely_refl : ∀ s, rely s s
  rely_trans : ∀ s t u, rely s t → rely t u → rely s u

namespace Prog

/-- One permitted atomic operation of the program. -/
inductive PermittedStep (H : Handler Op σ) (permit : {β : Type} → Op β → σ → β → Prop) :
    Prog Op ε α → σ → Prog Op ε α → σ → Prop
  | op {β : Type} {o : Op β} {k : β → Prog Op ε α} {s s' : σ} {b : β} :
      H.exec o s = some (b, s') → permit o s b → PermittedStep H permit (.op o k) s (k b) s'
  | again {o : Op Bool} {k : Prog Op ε α} {s s' : σ} :
      H.exec o s = some (true, s') → permit o s true →
        PermittedStep H permit (.spin o k) s (.spin o k) s'
  | leave {o : Op Bool} {k : Prog Op ε α} {s s' : σ} :
      H.exec o s = some (false, s') → permit o s false →
        PermittedStep H permit (.spin o k) s k s'

/-- A step, where every operation is permitted. -/
theorem Step.permitted {H : Handler Op σ} {p p' : Prog Op ε α} {s s' : σ} (h : p.Step H s p' s') :
    p.PermittedStep H (fun _ _ _ => True) s p' s' := by
  cases h with
  | op he => exact .op he trivial
  | again he => exact .again he trivial
  | leave he => exact .leave he trivial

/-- One operation, if it is permitted. -/
def advance (H : Handler Op σ) (permit : {β : Type} → Op β → σ → β → Prop)
    [∀ {β : Type} (o : Op β) (s : σ) (b : β), Decidable (permit o s b)] :
    Prog Op ε α → σ → Option (Prog Op ε α × σ)
  | .op o k, s =>
    match H.exec o s with
    | some (b, s') => if permit o s b then some (k b, s') else none
    | none => none
  | .spin o k, s =>
    match H.exec o s with
    | some (b, s') => if permit o s b then some (if b then .spin o k else k, s') else none
    | none => none
  | _, _ => none

theorem advance_permitted {H : Handler Op σ} {permit : {β : Type} → Op β → σ → β → Prop}
    [∀ {β : Type} (o : Op β) (s : σ) (b : β), Decidable (permit o s b)]
    {p p' : Prog Op ε α} {s s' : σ} (h : p.advance H permit s = some (p', s')) :
    p.PermittedStep H permit s p' s' := by
  cases p with
  | op o k =>
    simp only [advance] at h
    split at h
    · rename_i b t he
      split at h
      · cases h
        exact .op he ‹_›
      · cases h
    · cases h
  | spin o k =>
    simp only [advance] at h
    split at h
    · rename_i b t he
      split at h
      · cases h
        cases b with
        | true => exact .again he ‹_›
        | false => exact .leave he ‹_›
      · cases h
    · cases h
  | ret a => cases h
  | throw e => cases h
  | abort => cases h

/-- The program keeps the guarantee at each of its operations and ends in `Q` or `E`, whatever
the others do in between. -/
def Safe (H : Handler Op σ) (C : Contract Op σ) (Q : α → σ → Prop) (E : ε → σ → Prop) :
    Prog Op ε α → σ → Prop
  | .ret a, s => ∀ s', C.rely s s' → Q a s'
  | .throw e, s => ∀ s', C.rely s s' → E e s'
  | .abort, _ => True
  | .op o k, s => ∀ s', C.rely s s' → ∀ b s'', H.exec o s' = some (b, s'') → C.permit o s' b →
      C.guar s' s'' ∧ Safe H C Q E (k b) s''
  | .spin o k, s => ∃ I : σ → Prop, I s ∧ (∀ t t', I t → C.rely t t' → I t') ∧
      ∀ t, I t → ∀ b t', H.exec o t = some (b, t') → C.permit o t b →
        C.guar t t' ∧ if b then I t' else Safe H C Q E k t'

variable {H : Handler Op σ} {C : Contract Op σ} {Q : α → σ → Prop} {E : ε → σ → Prop}

/-- Safety survives the interference of the others. -/
theorem Safe.rely {p : Prog Op ε α} {s s' : σ} (h : p.Safe H C Q E s) (hr : C.rely s s') :
    p.Safe H C Q E s' := by
  cases p with
  | ret a => exact fun t ht => h t (C.rely_trans _ _ _ hr ht)
  | throw e => exact fun t ht => h t (C.rely_trans _ _ _ hr ht)
  | abort => trivial
  | op o k => exact fun t ht => h t (C.rely_trans _ _ _ hr ht)
  | spin o k =>
    obtain ⟨I, hs, hst, hk⟩ := h
    exact ⟨I, hst _ _ hs hr, hst, hk⟩

/-- **A permitted operation** keeps the guarantee, and leaves a safe program. -/
theorem Safe.step {p p' : Prog Op ε α} {s s' : σ} (h : p.Safe H C Q E s)
    (hs : p.PermittedStep H C.permit s p' s') : C.guar s s' ∧ p'.Safe H C Q E s' := by
  cases hs with
  | op he hp => exact h _ (C.rely_refl _) _ _ he hp
  -- the loop goes on: its invariant holds of the new state
  | again he hp =>
    obtain ⟨I, hs, hst, hk⟩ := h
    obtain ⟨hg, hI⟩ := hk _ hs _ _ he hp
    exact ⟨hg, I, hI, hst, hk⟩
  | leave he hp =>
    obtain ⟨I, hs, hst, hk⟩ := h
    exact hk _ hs _ _ he hp

/-- A safe program that has returned satisfies its postcondition. -/
theorem Safe.ret_post {a : α} {s : σ} (h : (Prog.ret a : Prog Op ε α).Safe H C Q E s) : Q a s :=
  h s (C.rely_refl s)

theorem Safe.throw_post {e : ε} {s : σ} (h : (Prog.throw e : Prog Op ε α).Safe H C Q E s) :
    E e s :=
  h s (C.rely_refl s)

/-- **Sequencing**: the first program may end wherever the second is safe. -/
theorem Safe.bind {p : Prog Op ε α} {f : α → Prog Op ε γ} {Q : γ → σ → Prop} {s : σ}
    (h : p.Safe H C (fun a t => (f a).Safe H C Q E t) E s) : (p.bind f).Safe H C Q E s := by
  induction p generalizing s with
  | ret a => exact h.ret_post
  | throw e => exact h
  | abort => trivial
  | op o k ih =>
    intro s' hr b s'' he hp
    obtain ⟨hg, hk⟩ := h s' hr b s'' he hp
    exact ⟨hg, ih b hk⟩
  | spin o k ih =>
    obtain ⟨I, hs, hst, hk⟩ := h
    refine ⟨I, hs, hst, fun t ht b t' he hp => ?_⟩
    obtain ⟨hg, hb⟩ := hk t ht b t' he hp
    refine ⟨hg, ?_⟩
    cases b with
    | true => exact hb
    | false => exact ih hb

/-- A weaker postcondition is met as well. -/
theorem Safe.mono {p : Prog Op ε α} {Q' : α → σ → Prop} {E' : ε → σ → Prop} {s : σ}
    (h : p.Safe H C Q E s) (hQ : ∀ a t, Q a t → Q' a t) (hE : ∀ e t, E e t → E' e t) :
    p.Safe H C Q' E' s := by
  induction p generalizing s with
  | ret a => exact fun t ht => hQ a t (h t ht)
  | throw e => exact fun t ht => hE e t (h t ht)
  | abort => trivial
  | op o k ih =>
    intro s' hr b s'' he hp
    obtain ⟨hg, hk⟩ := h s' hr b s'' he hp
    exact ⟨hg, ih b hk⟩
  | spin o k ih =>
    obtain ⟨I, hs, hst, hk⟩ := h
    refine ⟨I, hs, hst, fun t ht b t' he hp => ?_⟩
    obtain ⟨hg, hb⟩ := hk t ht b t' he hp
    refine ⟨hg, ?_⟩
    cases b with
    | true => exact hb
    | false => exact ih hb

/-- An assertion that the others cannot invalidate. -/
def Stable (C : Contract Op σ) (A : σ → Prop) : Prop :=
  ∀ s s', A s → C.rely s s' → A s'

theorem Safe.ret {a : α} {A : σ → Prop} (hA : Stable C A) (hQ : ∀ t, A t → Q a t) {s : σ}
    (hs : A s) : (Prog.ret a : Prog Op ε α).Safe H C Q E s :=
  fun t ht => hQ t (hA s t hs ht)

theorem Safe.throw {e : ε} {A : σ → Prop} (hA : Stable C A) (hE : ∀ t, A t → E e t) {s : σ}
    (hs : A s) : (Prog.throw e : Prog Op ε α).Safe H C Q E s :=
  fun t ht => hE t (hA s t hs ht)

/-- **One operation**, from a stable assertion. -/
theorem Safe.op {β : Type} {o : Op β} {k : β → Prog Op ε α} {A : σ → Prop} (hA : Stable C A)
    (h : ∀ t b t', A t → H.exec o t = some (b, t') → C.permit o t b →
      C.guar t t' ∧ (k b).Safe H C Q E t') {s : σ} (hs : A s) :
    (Prog.op o k).Safe H C Q E s :=
  fun t hr b t' he hp => h t b t' (hA s t hs hr) he hp

/-- **A busy wait**, with a stable loop invariant. -/
theorem Safe.spin {o : Op Bool} {k : Prog Op ε α} {A : σ → Prop} (hA : Stable C A)
    (h : ∀ t b t', A t → H.exec o t = some (b, t') → C.permit o t b →
      C.guar t t' ∧ if b then A t' else k.Safe H C Q E t') {s : σ} (hs : A s) :
    (Prog.spin o k).Safe H C Q E s :=
  ⟨A, hs, hA, fun t ht b t' he hp => h t b t' ht he hp⟩

/-- A program whose operations all keep the stable assertion `A`, within the guarantee, ends
in `A`. -/
theorem Uses.safe {P : {β : Type} → Op β → Prop} {A : σ → Prop} (hA : Stable C A)
    (h : ∀ {β : Type} (o : Op β), P o → ∀ t b t', A t → H.exec o t = some (b, t') →
      C.permit o t b → C.guar t t' ∧ A t')
    {p : Prog Op ε α} (hp : p.Uses P) {s : σ} (hs : A s) :
    p.Safe H C (fun _ => A) (fun _ => A) s := by
  induction p generalizing s with
  | ret a => exact fun t ht => hA s t hs ht
  | throw e => exact fun t ht => hA s t hs ht
  | abort => trivial
  | op o k ih =>
    refine Safe.op hA (fun t b t' ht he hpm => ?_) hs
    obtain ⟨hg, ht'⟩ := h o hp.1 t b t' ht he hpm
    exact ⟨hg, ih b (hp.2 b) ht'⟩
  | spin o k ih =>
    refine Safe.spin hA (fun t b t' ht he hpm => ?_) hs
    obtain ⟨hg, ht'⟩ := h o hp.1 t b t' ht he hpm
    refine ⟨hg, ?_⟩
    cases b with
    | true => exact ht'
    | false => exact ih hp.2 ht'

/-- **The frame rule**: a stable assertion that the operations of the program keep is added to its
postcondition. -/
theorem Safe.frame {P : {β : Type} → Op β → Prop} {A : σ → Prop} (hA : Stable C A)
    (h : ∀ {β : Type} (o : Op β), P o → ∀ t b t', A t → H.exec o t = some (b, t') → A t')
    {p : Prog Op ε α} {s : σ} (hu : p.Uses P) (hp : p.Safe H C Q E s) (hs : A s) :
    p.Safe H C (fun a t => Q a t ∧ A t) E s := by
  induction p generalizing s with
  | ret a => exact fun t ht => ⟨hp t ht, hA s t hs ht⟩
  | throw e => exact hp
  | abort => trivial
  | op o k ih =>
    intro s' hr b s'' he hpm
    obtain ⟨hg, hk⟩ := hp s' hr b s'' he hpm
    exact ⟨hg, ih b (hu.2 b) hk (h o hu.1 s' b s'' (hA s s' hs hr) he)⟩
  | spin o k ih =>
    obtain ⟨I, hI, hst, hk⟩ := hp
    refine ⟨fun t => I t ∧ A t, ⟨hI, hs⟩, fun t t' ht hr => ⟨hst t t' ht.1 hr, hA t t' ht.2 hr⟩,
      fun t ht b t' he hpm => ?_⟩
    obtain ⟨hg, hb⟩ := hk t ht.1 b t' he hpm
    have hA' : A t' := h o hu.1 t b t' ht.2 he
    refine ⟨hg, ?_⟩
    cases b with
    | true => exact ⟨hb, hA'⟩
    | false => exact ih hu.2 hb hA'

end Prog

/-! ## Contracts through a view -/

/-- The terms on which a program and the others share a view of the state: an invariant, and what
each side does to the view while it holds. -/
structure Terms (V : Type) where
  inv : V → Prop
  rely : V → V → Prop
  guar : V → V → Prop
  rely_refl : ∀ v, rely v v
  rely_trans : ∀ v v' v'', rely v v' → rely v' v'' → rely v v''

namespace Terms

variable {V β : Type} (T : Terms V) (view : σ → V) (permit : {β : Type} → Op β → σ → β → Prop)

/-- The contract of a program that keeps the terms. -/
def contract : Contract Op σ where
  rely s s' := T.inv (view s) → T.inv (view s') ∧ T.rely (view s) (view s')
  guar s s' := T.inv (view s) → T.inv (view s') ∧ T.guar (view s) (view s')
  permit := permit
  rely_refl _ h := ⟨h, T.rely_refl _⟩
  rely_trans _ _ _ h h' hs := ⟨(h' (h hs).1).1, T.rely_trans _ _ _ (h hs).2 (h' (h hs).1).2⟩

/-- The program keeps the terms, with postconditions on the view. -/
abbrev Safe (H : Handler Op σ) (Q : α → V → Prop) (E : V → Prop) (p : Prog Op ε α) (s : σ) : Prop :=
  p.Safe H (T.contract view permit) (fun a t => Q a (view t)) (fun _ t => E (view t)) s

/-- An assertion on the view that the others cannot invalidate. -/
def Stable (P : V → Prop) : Prop :=
  ∀ v v', T.inv v → T.inv v' → T.rely v v' → P v → P v'

/-- A permitted operation keeps the terms and an assertion. -/
def Keeps (H : Handler Op σ) (P : V → Prop) (o : Op β) : Prop :=
  ∀ s b s', H.exec o s = some (b, s') → permit o s b → T.inv (view s) → P (view s) →
    (T.inv (view s') ∧ T.guar (view s) (view s')) ∧ P (view s')

variable {T} {H : Handler Op σ} {Q : α → V → Prop} {E P : V → Prop} {s : σ}

theorem Stable.contract (hP : T.Stable P) :
    Prog.Stable (T.contract view permit) fun t : σ => T.inv (view t) ∧ P (view t) := by
  intro t t' ht hr
  obtain ⟨hinv, hrely⟩ := hr ht.1
  exact ⟨hinv, hP _ _ ht.1 hinv hrely ht.2⟩

variable {view permit}

theorem Safe.ret {a : α} (hP : T.Stable P) (hQ : ∀ v, T.inv v → P v → Q a v) (hinv : T.inv (view s))
    (hs : P (view s)) : T.Safe view permit H Q E (.ret a : Prog Op ε α) s :=
  Prog.Safe.ret (hP.contract view permit) (fun _ ht => hQ _ ht.1 ht.2) ⟨hinv, hs⟩

theorem Safe.throw {e : ε} (hP : T.Stable P) (hE : ∀ v, T.inv v → P v → E v) (hinv : T.inv (view s))
    (hs : P (view s)) : T.Safe view permit H Q E (.throw e : Prog Op ε α) s :=
  Prog.Safe.throw (hP.contract view permit) (fun _ ht => hE _ ht.1 ht.2) ⟨hinv, hs⟩

/-- **One operation**, from a stable assertion. -/
theorem Safe.op {o : Op β} {k : β → Prog Op ε α} (hP : T.Stable P)
    (h : ∀ t b t', H.exec o t = some (b, t') → permit o t b → T.inv (view t) → P (view t) →
      (T.inv (view t') ∧ T.guar (view t) (view t')) ∧ T.Safe view permit H Q E (k b) t')
    (hinv : T.inv (view s)) (hs : P (view s)) : T.Safe view permit H Q E (.op o k) s := by
  refine Prog.Safe.op (hP.contract view permit) (fun t b t' ht he hp => ?_) ⟨hinv, hs⟩
  obtain ⟨hg, hk⟩ := h t b t' he hp ht.1 ht.2
  exact ⟨fun _ => hg, hk⟩

/-- **An operation that leaves the view alone.** -/
theorem Safe.read {o : Op β} {k : β → Prog Op ε α} (hrefl : ∀ v, T.guar v v) (hP : T.Stable P)
    (hview : ∀ t b t', H.exec o t = some (b, t') → view t' = view t)
    (h : ∀ t b t', H.exec o t = some (b, t') → permit o t b → T.inv (view t) → P (view t) →
      view t' = view t → T.Safe view permit H Q E (k b) t')
    (hinv : T.inv (view s)) (hs : P (view s)) : T.Safe view permit H Q E (.op o k) s := by
  refine Safe.op hP (fun t b t' he hp ht hPt => ?_) hinv hs
  have hsame := hview t b t' he
  refine ⟨?_, h t b t' he hp ht hPt hsame⟩
  rw [hsame]
  exact ⟨ht, hrefl _⟩

/-- **A busy wait**, with a stable assertion. -/
theorem Safe.spin {o : Op Bool} {k : Prog Op ε α} (hP : T.Stable P)
    (h : ∀ t b t', H.exec o t = some (b, t') → permit o t b → T.inv (view t) → P (view t) →
      (T.inv (view t') ∧ T.guar (view t) (view t')) ∧
        if b then P (view t') else T.Safe view permit H Q E k t')
    (hinv : T.inv (view s)) (hs : P (view s)) : T.Safe view permit H Q E (.spin o k) s := by
  refine Prog.Safe.spin (hP.contract view permit) (fun t b t' ht he hp => ?_) ⟨hinv, hs⟩
  obtain ⟨hg, hb⟩ := h t b t' he hp ht.1 ht.2
  refine ⟨fun _ => hg, ?_⟩
  cases b with
  | true => exact ⟨hg.1, hb⟩
  | false => exact hb

/-- **A program whose operations keep an assertion**, and what follows it. -/
theorem Safe.bind_uses {R : {β : Type} → Op β → Prop} {p : Prog Op ε α} {f : α → Prog Op ε γ}
    {Q : γ → V → Prop} (hp : p.Uses R) (hP : T.Stable P)
    (hR : ∀ {β : Type} (o : Op β), R o → T.Keeps view permit H P o) (hE : ∀ v, P v → E v)
    (hf : ∀ a t, T.inv (view t) → P (view t) → T.Safe view permit H Q E (f a) t)
    (hinv : T.inv (view s)) (hs : P (view s)) : T.Safe view permit H Q E (p.bind f) s := by
  refine Prog.Safe.bind ((Prog.Uses.safe (hP.contract view permit) ?_ hp ⟨hinv, hs⟩).mono
    (fun a t ht => hf a t ht.1 ht.2) fun _ t ht => hE _ ht.2)
  intro β o ho t b t' ht he hperm
  obtain ⟨hg, hPt⟩ := hR o ho t b t' he hperm ht.1 ht.2
  exact ⟨fun _ => hg, hg.1, hPt⟩

/-- A program whose operations keep an assertion. -/
theorem Safe.uses {R : {β : Type} → Op β → Prop} {p : Prog Op ε α} (hp : p.Uses R)
    (hP : T.Stable P) (hR : ∀ {β : Type} (o : Op β), R o → T.Keeps view permit H P o)
    (hE : ∀ v, P v → E v) (hinv : T.inv (view s)) (hs : P (view s)) :
    T.Safe view permit H (fun _ => P) E p s := by
  have h : T.Safe view permit H (fun _ => P) E (p.bind .ret) s :=
    Safe.bind_uses hp hP hR hE (fun _ _ => Safe.ret hP fun _ _ => id) hinv hs
  rwa [Prog.bind_ret_right] at h

theorem Keeps.of_view {o : Op β} (hrefl : ∀ v, T.guar v v)
    (hview : ∀ t b t', H.exec o t = some (b, t') → view t' = view t) :
    T.Keeps view permit H P o := by
  intro t b t' he _ ht hPt
  rw [hview t b t' he]
  exact ⟨⟨ht, hrefl _⟩, hPt⟩

end Terms

end Program
