import Htx.Library.StoreLoop

/-!
# Sequences of writes

Several fields copied to memory one after the other.  Copies to disjoint places may be
exchanged, and so a loop that makes two kinds of copies at every place is two loops.
-/

namespace Htx.Library.Memory

open List

abbrev Write :=
  Nat × List UInt8

def puts (m : Memory) (ws : List Write) : Memory :=
  ws.foldl (fun m w => m.put w.1 w.2) m

def Within (lo hi : Nat) (ws : List Write) : Prop :=
  forall w, w ∈ ws -> lo ≤ w.1 ∧ w.1 + w.2.length ≤ hi

section

variable {m m' : Memory} {ws vs : List Write} {lo hi lo' hi' : Nat}

@[simp]
theorem puts_nil : m.puts [] = m :=
  rfl

theorem puts_cons (w : Write) : m.puts (w :: ws) = (m.put w.1 w.2).puts ws :=
  rfl

theorem puts_append : m.puts (ws ++ vs) = (m.puts ws).puts vs :=
  foldl_append

theorem Within.head {w : Write} (h : Within lo hi (w :: ws)) : lo ≤ w.1 ∧ w.1 + w.2.length ≤ hi :=
  h w mem_cons_self

theorem Within.tail {w : Write} (h : Within lo hi (w :: ws)) : Within lo hi ws :=
  fun v hv => h v (mem_cons_of_mem w hv)

theorem Within.append (h : Within lo hi ws) (h' : Within lo hi vs) : Within lo hi (ws ++ vs) := by
  intro w hw
  rcases mem_append.mp hw with hw | hw
  · exact h w hw
  · exact h' w hw

theorem puts_of_outside {i : Nat} (h : Within lo hi ws) (hi' : i < lo ∨ hi ≤ i) :
    m.puts ws i = m i := by
  induction ws generalizing m with
  | nil => rfl
  | cons w ws ih =>
    have hw := h.head
    rw [puts_cons, ih h.tail, put_of_outside (by omega)]

theorem bytes_puts_of_outside {a n : Nat} (h : Within lo hi ws)
    (hout : a + n ≤ lo ∨ hi ≤ a) : (m.puts ws).bytes a n = m.bytes a n := by
  rw [bytes_eq_iff]
  intro i hi
  exact puts_of_outside h (by omega)

theorem put_comm {a b : Nat} {bs cs : List UInt8} (h : a + bs.length ≤ b ∨ b + cs.length ≤ a) :
    (m.put a bs).put b cs = (m.put b cs).put a bs := by
  funext i
  by_cases ha : a ≤ i ∧ i < a + bs.length
  · rw [put_of_outside (by omega)]
    simp only [put, if_pos ha]
  · rw [put_of_outside (m := m.put b cs) (a := a) (by omega)]
    unfold put
    simp only [if_neg ha]

theorem puts_put_comm {a : Nat} {bs : List UInt8} (h : Within lo hi ws)
    (hout : a + bs.length ≤ lo ∨ hi ≤ a) : (m.put a bs).puts ws = (m.puts ws).put a bs := by
  induction ws generalizing m with
  | nil => rfl
  | cons w ws ih =>
    have hw := h.head
    rw [puts_cons, puts_cons, put_comm (by omega), ih h.tail]

theorem puts_comm (h : Within lo hi ws) (h' : Within lo' hi' vs)
    (hout : hi ≤ lo' ∨ hi' ≤ lo) : (m.puts ws).puts vs = (m.puts vs).puts ws := by
  induction ws generalizing m with
  | nil => rfl
  | cons w ws ih =>
    have hw := h.head
    rw [puts_cons, puts_cons, ih h.tail, puts_put_comm h' (by omega)]

theorem puts_congr {i : Nat} (h : m i = m' i) : m.puts ws i = m'.puts ws i := by
  induction ws generalizing m m' with
  | nil => exact h
  | cons w ws ih =>
    rw [puts_cons, puts_cons]
    apply ih
    simp only [put, h]

theorem puts_covered {i : Nat}
    (h : exists w, w ∈ ws ∧ w.1 ≤ i ∧ i < w.1 + w.2.length) : m.puts ws i = m'.puts ws i := by
  induction ws generalizing m m' with
  | nil => simp at h
  | cons w ws ih =>
    rw [puts_cons, puts_cons]
    by_cases hw : w.1 ≤ i ∧ i < w.1 + w.2.length
    · apply puts_congr
      simp only [put, if_pos hw]
    · rcases h with ⟨v, hv, hcovers⟩
      rcases mem_cons.mp hv with rfl | hv
      · exact absurd hcovers hw
      · exact ih ⟨v, hv, hcovers⟩

end

section

variable {size : Nat} {first second : Nat -> List Write}

theorem puts_flatMap_comm {m : Memory} {ws : List Write} {a : Nat} {places : List Nat}
    (hsecond : forall p, Within p (p + size) (second p)) (hws : Within a (a + size) ws)
    (hapart : forall p, p ∈ places -> a + size ≤ p ∨ p + size ≤ a) :
    (m.puts ws).puts (places.flatMap second) = (m.puts (places.flatMap second)).puts ws := by
  induction places generalizing m with
  | nil => rfl
  | cons p places ih =>
    rw [flatMap_cons, puts_append, puts_append, puts_comm hws (hsecond p) (hapart p mem_cons_self)]
    exact ih fun q hq => hapart q (mem_cons_of_mem p hq)

theorem puts_flatMap_append {m : Memory} {places : List Nat}
    (hfirst : forall p, Within p (p + size) (first p))
    (hsecond : forall p, Within p (p + size) (second p))
    (hapart : places.Pairwise fun p q => p + size ≤ q ∨ q + size ≤ p) :
    m.puts (places.flatMap fun p => first p ++ second p) =
      (m.puts (places.flatMap first)).puts (places.flatMap second) := by
  induction places generalizing m with
  | nil => rfl
  | cons p places ih =>
    rw [pairwise_cons] at hapart
    rcases hapart with ⟨hp, hrest⟩
    simp only [flatMap_cons, puts_append]
    rw [ih hrest, ← puts_flatMap_comm hfirst (hsecond p) hp]

end

end Htx.Library.Memory
