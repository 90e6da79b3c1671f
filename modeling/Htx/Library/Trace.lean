import Mathlib.Data.List.Forall2

/-!
# Computations that record and may stop

A `Trace` is what a deterministic computation has recorded and the state it ends in, if it
did not stop on the way.
-/

namespace Htx.Library

open List

structure Trace (out state : Type) where
  output : List out
  result : Option state

namespace Trace

variable {out out' state next : Type}

def stop : Trace out state :=
  ⟨[], none⟩

def done (s : state) : Trace out state :=
  ⟨[], some s⟩

def emit (a : out) (s : state) : Trace out state :=
  ⟨[a], some s⟩

def ofOption (r : Option state) : Trace out state :=
  ⟨[], r⟩

def map (f : out -> out') (t : Trace out state) : Trace out' state :=
  ⟨t.output.map f, t.result⟩

def andThen (t : Trace out state) (f : state -> Trace out next) : Trace out next :=
  match t.result with
  | none => ⟨t.output, none⟩
  | some s => ⟨t.output ++ (f s).output, (f s).result⟩

def iterate (f : state -> Trace out state) : Nat -> state -> Trace out state
  | 0, s => done s
  | n + 1, s => (f s).andThen (iterate f n)

@[simp]
theorem done_andThen (s : state) (f : state -> Trace out next) : (done s).andThen f = f s := by
  simp [andThen, done]

theorem mk_andThen (front : List out) (s : state) (f : state -> Trace out next) :
    andThen ⟨front, some s⟩ f = ⟨front ++ (f s).output, (f s).result⟩ :=
  rfl

theorem andThen_done (t : Trace out state) : t.andThen done = t := by
  rcases t with ⟨output, _ | s⟩
  · rfl
  · simp [andThen, done]

theorem andThen_assoc {last : Type} (t : Trace out state) (f : state -> Trace out next)
    (g : next -> Trace out last) :
    (t.andThen f).andThen g = t.andThen fun s => (f s).andThen g := by
  rcases t with ⟨output, _ | s⟩
  · rfl
  · cases h : (f s).result with
    | none | some s' => simp [andThen, h]

theorem iterate_succ_last (f : state -> Trace out state) (n : Nat) (s : state) :
    iterate f (n + 1) s = (iterate f n s).andThen f := by
  induction n generalizing s with
  | zero => exact andThen_done (f s)
  | succ n ih =>
    change (f s).andThen (iterate f (n + 1)) = ((f s).andThen (iterate f n)).andThen f
    rw [andThen_assoc]
    exact congrArg _ (funext ih)

/-!
# What a computation records
-/

structure Always (p : out -> Prop) (post : state -> Prop) (t : Trace out state) : Prop where
  output : forall a, a ∈ t.output -> p a
  result : forall s, t.result = some s -> post s

section

variable {p : out -> Prop} {mid : state -> Prop} {post : next -> Prop}

variable {s : state} {t : Trace out state} {f : state -> Trace out next}

theorem Always.done (h : mid s) : Always p mid (done s) := by
  constructor
  · intro a ha
    cases ha
  · intro s' hs'
    cases hs'
    exact h

theorem Always.stop : Always p mid (stop : Trace out state) := by
  constructor
  · intro a ha
    cases ha
  · intro s hs
    cases hs

theorem Always.emit {a : out} (ha : p a) (h : mid s) : Always p mid (emit a s) := by
  constructor
  · intro b hb
    rw [mem_singleton.mp hb]
    exact ha
  · intro s' hs'
    cases hs'
    exact h

theorem Always.map {f : out -> out'} {q : out' -> Prop} (h : Always (fun a => q (f a)) mid t) :
    Always q mid (t.map f) := by
  refine ⟨fun b hb => ?_, h.result⟩
  obtain ⟨a, ha, rfl⟩ := mem_map.mp hb
  exact h.output a ha

theorem Always.andThen (h : Always p mid t) (hnext : forall s, mid s -> Always p post (f s)) :
    Always p post (t.andThen f) := by
  rcases t with ⟨output, _ | s⟩
  · exact ⟨h.output, fun _ hs => by cases hs⟩
  · have hrest := hnext s (h.result s rfl)
    constructor
    · intro a ha
      rcases mem_append.mp ha with ha | ha
      · exact h.output a ha
      · exact hrest.output a ha
    · exact hrest.result

theorem mem_output_andThen_left {a : out} (h : a ∈ t.output) : a ∈ (t.andThen f).output := by
  rcases t with ⟨output, _ | s⟩
  · exact h
  · exact mem_append_left _ h

theorem output_andThen (hresult : t.result = some s) :
    (t.andThen f).output = t.output ++ (f s).output := by
  rcases t with ⟨output, result⟩
  cases hresult
  rfl

theorem mem_output_andThen_right {a : out} (hresult : t.result = some s) (h : a ∈ (f s).output) :
    a ∈ (t.andThen f).output := by
  rw [output_andThen hresult]
  exact mem_append_right _ h

theorem result_andThen (hresult : t.result = some s) : (t.andThen f).result = (f s).result := by
  rcases t with ⟨output, result⟩
  cases hresult
  rfl

end

/-!
# Comparing two computations
-/

variable {state' next' : Type} {obs : out -> out -> Prop}
variable {rel : state -> state' -> Prop} {post : next -> next' -> Prop}

structure Same (obs : out -> out -> Prop) (rel : state -> state' -> Prop)
    (t : Trace out state) (u : Trace out state') : Prop where
  output : List.Forall₂ obs t.output u.output
  result : Option.Rel rel t.result u.result

theorem Same.done {s : state} {s' : state'} (h : rel s s') : Same obs rel (done s) (done s') :=
  ⟨.nil, .some h⟩

theorem Same.stop : Same obs rel (stop : Trace out state) (stop : Trace out state') :=
  ⟨.nil, .none⟩

theorem Same.emit {a b : out} {s : state} {s' : state'} (hobs : obs a b)
    (h : rel s s') : Same obs rel (emit a s) (emit b s') :=
  ⟨.cons hobs .nil, .some h⟩

theorem Same.mono {rel' : state -> state' -> Prop} {t : Trace out state}
    {u : Trace out state'} (h : Same obs rel t u)
    (himp : forall s s', t.result = some s -> u.result = some s' -> rel s s' -> rel' s s') :
    Same obs rel' t u := by
  rcases t with ⟨output, result⟩
  rcases u with ⟨output', result'⟩
  refine ⟨h.output, ?_⟩
  cases h.result with
  | none => exact .none
  | some hrel => exact .some (himp _ _ rfl rfl hrel)

theorem Same.andThen {t : Trace out state} {u : Trace out state'}
    {f : state -> Trace out next} {g : state' -> Trace out next'}
    (h : Same obs rel t u)
    (hnext : forall s s', t.result = some s -> u.result = some s' -> rel s s' ->
      Same obs post (f s) (g s')) :
    Same obs post (t.andThen f) (u.andThen g) := by
  rcases t with ⟨output, result⟩
  rcases u with ⟨output', result'⟩
  cases h.result with
  | none => exact ⟨h.output, .none⟩
  | some hrel =>
    have hfg := hnext _ _ rfl rfl hrel
    exact ⟨rel_append h.output hfg.output, hfg.result⟩

theorem Same.iterate {f : state -> Trace out state} {g : state' -> Trace out state'}
    (hstep : forall s s', rel s s' -> Same obs rel (f s) (g s')) (n : Nat)
    {s : state} {s' : state'} (h : rel s s') :
    Same obs rel (iterate f n s) (iterate g n s') := by
  induction n generalizing s s' with
  | zero => exact .done h
  | succ n ih => exact (hstep s s' h).andThen fun _ _ _ _ hrel => ih hrel

end Trace

end Htx.Library
