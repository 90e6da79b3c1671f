import Htx.Hxestorage.ValidationRun

/-!
# The read and write ratio of an operation

An operation such as `w[2]r[5]c` promises two writes and five reads, each with a compare,
in one iteration of the `num_oper` loop.
-/

namespace Htx.Hxestorage

open List LoopContext Nat TestState

def operStrSz : Nat := 12

def operationsOf (oper : String) : Option Operations :=
  if oper.length < operStrSz then some (populateOperations oper) else none

inductive RatioForm where
  | wrc
  | w
  | rc
  | r
  | rw
  | wr
  deriving DecidableEq

namespace RatioForm

def letter (upper : Bool) (c : Char) : Char :=
  if upper then c.toUpper else c

def counted (upper : Bool) (c : Char) (n : Nat) : List Char :=
  letter upper c :: '[' :: (toDigits 10 n ++ [']'])

def chars (upper : Bool) (m n : Nat) : RatioForm -> List Char
  | .wrc => counted upper 'w' m ++ (counted upper 'r' n ++ [letter upper 'c'])
  | .w => counted upper 'w' m
  | .rc => counted upper 'r' n ++ [letter upper 'c']
  | .r => counted upper 'r' n
  | .rw => counted upper 'r' n ++ counted upper 'w' m
  | .wr => counted upper 'w' m ++ counted upper 'r' n

def text (form : RatioForm) (upper : Bool) (m n : Nat) : String :=
  String.ofList (form.chars upper m n)

def writes (m : Nat) : RatioForm -> Nat
  | .rc => 0
  | .r => 0
  | _ => m

def reads (n : Nat) : RatioForm -> Nat
  | .w => 0
  | _ => n

def compares : RatioForm -> Bool
  | .wrc => true
  | .rc => true
  | _ => false

def letters : RatioForm -> List Oper
  | .wrc => [.write, .read, .compare]
  | .w => [.write]
  | .rc => [.read, .compare]
  | .r => [.read]
  | .rw => [.read, .write]
  | .wr => [.write, .read]

def Balanced (a : Access) (m n : Nat) : RatioForm -> Prop
  | .wrc => a = .seq ∨ m ≤ n
  | .wr => a = .seq ∨ m ≤ n
  | .rw => m = n
  | _ => True

end RatioForm

def ReadsCompared : List Oper -> Prop
  | [] => True
  | .read :: rest => rest.head? = some .compare ∧ ReadsCompared rest
  | _ :: rest => ReadsCompared rest

structure Performs (form : RatioForm) (m n : Nat) (opers : List Oper) : Prop where
  writes : opers.count .write = form.writes m
  reads : opers.count .read = form.reads n
  compared : form.compares = true -> ReadsCompared opers

def RatioKept (form : RatioForm) (upper : Bool) (m n : Nat) (a : Access) : Prop :=
  exists p, operationsOf (form.text upper m n) = some p ∧
    forall env : TestEnv, env.ctx = { p with bwrc := false, hotness := 1 } ->
      (forall k, env.succeeds k = true) -> forall st : TestState, st.Clean ->
          exists st' opers, st.iteration env a = .ok st' ∧
            st'.calls = (opers.map fun oper => (oper, true)).reverse ++ st.calls ∧
            Performs form m n opers

/-!
# Parsing the forms
-/

theorem leadingNat_of_isDigit {cs : List Char} (h : forall c, c ∈ cs -> c.isDigit = true)
    (n : Nat) : leadingNat cs n = ofDigitChars 10 cs n := by
  induction cs generalizing n with
  | nil => rfl
  | cons c cs ih =>
    rw [forall_mem_cons] at h
    rw [leadingNat, if_pos h.1, ih h.2, ofDigitChars_cons]
    rfl

theorem atoiUnsigned_toDigits {n : Nat} (h : n < 2 ^ 32) : atoiUnsigned (toDigits 10 n) = n := by
  have hdigits : forall c, c ∈ toDigits 10 n -> c.isDigit = true :=
    fun c hc => isDigit_of_mem_toDigits (by decide) (by decide) hc
  have hvalue : leadingNat (toDigits 10 n) 0 % 2 ^ 32 = n := by
    rw [leadingNat_of_isDigit hdigits, ofDigitChars_ten_toDigits, mod_eq_of_lt h]
  cases hcs : toDigits 10 n with
  | nil => exact absurd hcs toDigits_ne_nil
  | cons c cs =>
    rw [hcs] at hdigits hvalue
    have hc := hdigits c mem_cons_self
    have hspace : c.isWhitespace = false := by
      cases hw : c.isWhitespace with
      | false => rfl
      | true =>
        simp only [Char.isWhitespace, Bool.or_eq_true, decide_eq_true_eq] at hw
        rcases hw with ((rfl | rfl) | rfl) | rfl <;> cases hc
    unfold atoiUnsigned
    rw [dropWhile_cons_of_neg (by simp [hspace])]
    split
    · rename_i hminus
      cases hminus
      cases hc
    · rename_i hplus
      cases hplus
      cases hc
    · exact hvalue

theorem bracket_toDigits (n : Nat) (rest : List Char) :
    bracket (toDigits 10 n ++ ']' :: rest) = (toDigits 10 n, rest) := by
  have hne : forall c, c ∈ toDigits 10 n -> decide (c ≠ ']') = true := by
    intro c hc
    have hdigit := isDigit_of_mem_toDigits (by decide) (by decide) hc
    rw [decide_eq_true_eq]
    rintro rfl
    cases hdigit
  unfold bracket
  rw [takeWhile_append_of_pos hne, dropWhile_append_of_pos hne]
  simp

theorem populateLoop_nil (fuel : Nat) (wFound rFound : Bool) (p : Operations) :
    populateLoop fuel [] wFound rFound p = p := by
  cases fuel <;> rfl

section

open RatioForm

variable {m n : Nat} (upper rFound : Bool) (fuel : Nat) (rest : List Char) (p : Operations)

theorem counted_append (c : Char) : counted upper c n ++ rest =
    letter upper c :: '[' :: (toDigits 10 n ++ ']' :: rest) := by
  simp [counted]

theorem populateLoop_writes (hm : m < 2 ^ 32) :
    populateLoop (fuel + 2) (counted upper 'w' m ++ rest) false rFound p =
      populateLoop fuel rest false rFound { p.push .write with numWrites := m } := by
  have hletter : letter upper 'w' = 'W' ∨ letter upper 'w' = 'w' := by
    cases upper <;> decide
  rw [counted_append, populateLoop, if_pos hletter]
  simp [populateLoop, bracket_toDigits, atoiUnsigned_toDigits hm]

theorem populateLoop_reads (hn : n < 2 ^ 32) :
    populateLoop (fuel + 2) (counted upper 'r' n ++ rest) false rFound p =
      populateLoop fuel rest false false { p.push .read with numReads := n } := by
  have hletter : ¬ (letter upper 'r' = 'W' ∨ letter upper 'r' = 'w') ∧
      (letter upper 'r' = 'R' ∨ letter upper 'r' = 'r') := by
    cases upper <;> decide
  rw [counted_append, populateLoop, if_neg hletter.1, if_pos hletter.2]
  simp [populateLoop, bracket_toDigits, atoiUnsigned_toDigits hn]

theorem populateLoop_compare : populateLoop (fuel + 1) [letter upper 'c'] false rFound p =
      { p.push .compare with compareEnabled := true } := by
  have hletter : ¬ (letter upper 'c' = 'W' ∨ letter upper 'c' = 'w') ∧
      ¬ (letter upper 'c' = 'R' ∨ letter upper 'c' = 'r') ∧
      (letter upper 'c' = 'C' ∨ letter upper 'c' = 'c' ∨ letter upper 'c' = 'V') := by
    cases upper <;> decide
  rw [populateLoop, if_neg hletter.1, if_neg hletter.2.1, if_pos hletter.2.2, populateLoop_nil]

end

theorem length_counted (upper : Bool) (c : Char) (n : Nat) :
    (RatioForm.counted upper c n).length = (toDigits 10 n).length + 3 := by
  simp [RatioForm.counted]

def RatioForm.parsed (form : RatioForm) (m n : Nat) : Operations where
  operations := form.letters
  numWrites := form.writes m
  numReads := form.reads n
  numDiscards := 0
  compareEnabled := form.compares

theorem populateOperations_text (form : RatioForm) (upper : Bool) {m n : Nat}
    (hm : form.writes m < 2 ^ 32) (hn : form.reads n < 2 ^ 32) :
    populateOperations (form.text upper m n) = form.parsed m n := by
  -- the loop makes fewer rounds than there are characters
  have hrounds : 2 * form.letters.length ≤ (form.chars upper m n).length := by
    cases form <;> simp [RatioForm.chars, RatioForm.letters, length_counted] <;> omega
  rcases Nat.exists_eq_add_of_le' hrounds with ⟨k, hk⟩
  unfold populateOperations RatioForm.text
  rw [String.toList_ofList, hk]
  have hwrites := fun (hm : m < 2 ^ 32) k rest p => populateLoop_writes upper false k rest p hm
  have hreads := fun (hn : n < 2 ^ 32) k rest p => populateLoop_reads upper false k rest p hn
  cases form with
  | wrc =>
    exact (hwrites hm (k + 4) _ _).trans
      ((hreads hn (k + 2) _ _).trans (populateLoop_compare upper false (k + 1) _))
  | w =>
    rw [RatioForm.chars, ← append_nil (RatioForm.counted upper 'w' m)]
    exact (hwrites hm k _ _).trans (populateLoop_nil ..)
  | rc => exact (hreads hn (k + 2) _ _).trans (populateLoop_compare upper false (k + 1) _)
  | r =>
    rw [RatioForm.chars, ← append_nil (RatioForm.counted upper 'r' n)]
    exact (hreads hn k _ _).trans (populateLoop_nil ..)
  | rw =>
    rw [RatioForm.chars, ← append_nil (RatioForm.counted upper 'w' m)]
    exact (hreads hn (k + 2) _ _).trans ((hwrites hm k _ _).trans (populateLoop_nil ..))
  | wr =>
    rw [RatioForm.chars, ← append_nil (RatioForm.counted upper 'r' n)]
    exact (hwrites hm (k + 2) _ _).trans ((hreads hn k _ _).trans (populateLoop_nil ..))

/-!
# The calls of one iteration
-/

namespace LoopContext

variable {c : LoopContext} {a : Access}

def roundOpers (c : LoopContext) (a : Access) : List Oper :=
  (replicate c.opertn c.operations).flatten ++ (replicate c.nwritesLeft (c.leftWrite a) ++
      (replicate c.nreadsLeft (c.operations.drop 1)).flatten)

theorem map_snd_schedule (hbwrc : c.bwrc = false) (hhot : c.hotness = 1) :
    (c.schedule a).map Prod.snd = c.roundOpers a := by
  have hloop : c.schedule a = (c.hotInstrs a).flatMap Instr.calls := by
    cases a <;> simp [schedule, iteration, hbwrc, hhot, hotnessInstrs]
  rw [hloop, calls_hotInstrs, roundOpers]
  simp [Function.comp_def]

theorem count_roundOpers (oper : Oper) : (c.roundOpers a).count oper =
      c.opertn * c.operations.count oper + ((if c.leftWrite a = oper then c.nwritesLeft else 0) +
          c.nreadsLeft * (c.operations.drop 1).count oper) := by
  simp [roundOpers, count_flatten, count_replicate]

theorem counts_of_mixed (hdiscards : c.numDiscards = 0) (hreads : 0 < c.numReads)
    (hwrites : 0 < c.numWrites) :
    c.opertn = min c.numWrites c.numReads ∧ c.nwritesLeft = c.numWrites - c.numReads ∧
      c.nreadsLeft = c.numReads - c.numWrites := by
  have hmixed : c.mixed = true := by
    simp [mixed, hdiscards, ne_of_gt hreads, ne_of_gt hwrites]
  have hopertn : c.opertn = min c.numWrites c.numReads := by
    unfold opertn
    rw [if_neg (not_not.mpr hdiscards), if_neg (ne_of_gt hreads), if_neg (ne_of_gt hwrites)]
    split_ifs <;> omega
  refine ⟨hopertn, ?_, ?_⟩
  · rw [nwritesLeft, hmixed, if_pos rfl, hopertn]
    omega
  · rw [nreadsLeft, hmixed, if_pos rfl, hopertn]
    omega

end LoopContext

theorem readsCompared_append {front rest : List Oper} (hfront : ReadsCompared front)
    (hrest : ReadsCompared rest) (hlast : front.getLast? ≠ some .read) :
    ReadsCompared (front ++ rest) := by
  induction front with
  | nil => exact hrest
  | cons oper front ih =>
    have htail : ReadsCompared front -> ReadsCompared (front ++ rest) := by
      intro h
      cases front with
      | nil => exact hrest
      | cons next front => exact ih h (by rwa [getLast?_cons_cons] at hlast)
    cases oper with
    | read =>
      refine ⟨?_, htail hfront.2⟩
      cases front with
      | nil => cases hfront.1
      | cons next front => exact hfront.1
    | write | compare | discard | null => exact htail hfront

theorem readsCompared_replicate {body : List Oper} (hbody : ReadsCompared body)
    (hlast : body.getLast? ≠ some .read) (n : Nat) :
    ReadsCompared (replicate n body).flatten := by
  induction n with
  | zero => trivial
  | succ n ih =>
    rw [replicate_succ, flatten_cons]
    exact readsCompared_append hbody ih hlast

namespace RatioForm

def context (form : RatioForm) (m n : Nat) : LoopContext :=
  { form.parsed m n with bwrc := false, hotness := 1 }

variable {form : RatioForm} {m n : Nat} {a : Access}

theorem counts_context (hm : 1 ≤ m) (hn : 1 ≤ n) (hw : form.writes m = m) (hr : form.reads n = n) :
    (form.context m n).opertn = min m n ∧ (form.context m n).nwritesLeft = m - n ∧
      (form.context m n).nreadsLeft = n - m := by
  have hcounts := @counts_of_mixed (form.context m n) rfl
    (by change 0 < form.reads n; omega) (by change 0 < form.writes m; omega)
  change _ = min (form.writes m) (form.reads n) ∧ _ = form.writes m - form.reads n ∧
    _ = form.reads n - form.writes m at hcounts
  rwa [hw, hr] at hcounts

theorem roundOpers_w (hm : 1 ≤ m) :
    (RatioForm.w.context m n).roundOpers a = replicate m .write := by
  have hpos : m ≠ 0 := ne_of_gt hm
  simp [roundOpers, opertn, nwritesLeft,
    nreadsLeft, mixed, context, parsed, letters, writes, reads, hpos]

theorem roundOpers_reads (hform : form = .rc ∨ form = .r) (hn : 1 ≤ n) :
    (form.context m n).roundOpers a = (replicate n form.letters).flatten := by
  have hpos : n ≠ 0 := ne_of_gt hn
  rcases hform with rfl | rfl <;>
  simp [roundOpers, opertn, nwritesLeft, nreadsLeft, mixed, context, parsed, writes, reads, hpos]

theorem null_mem_roundOpers_iff (hm : 1 ≤ m) (hn : 1 ≤ n) (hw : form.writes m = m)
    (hr : form.reads n = n) :
    .null ∈ (form.context m n).roundOpers a <-> a = .random ∧ n < m := by
  have hnone : .null ∉ form.letters := by
    cases form <;> decide
  rcases counts_context hm hn hw hr with ⟨_, hleft, _⟩
  have hwrite : (form.context m n).leftWrite a = .null <-> a = .random := by
    cases a with
    | seq => cases form <;> simp [leftWrite, context, parsed, letters]
    | random => simp [leftWrite]
  have hrounds : forall i k, .null ∉ (replicate k (form.letters.drop i)).flatten := by
    intro i k hmem
    rcases mem_flatten.mp hmem with ⟨body, hbody, hmem⟩
    rw [eq_of_mem_replicate hbody] at hmem
    exact hnone (mem_of_mem_drop hmem)
  constructor
  · intro hmem
    rcases mem_append.mp hmem with hmem | hmem
    · exact absurd hmem (hrounds 0 _)
    · rcases mem_append.mp hmem with hmem | hmem
      · rcases mem_replicate.mp hmem with ⟨hpos, hnull⟩
        rw [hleft] at hpos
        exact ⟨hwrite.mp hnull.symm, by omega⟩
      · exact absurd hmem (hrounds 1 _)
  · rintro ⟨hrandom, hlt⟩
    refine mem_append_right _ (mem_append_left _ ?_)
    rw [mem_replicate, hleft]
    exact ⟨by omega, (hwrite.mpr hrandom).symm⟩

theorem readsCompared_wrc : ReadsCompared ((RatioForm.wrc.context m n).roundOpers a) := by
  have hne : (RatioForm.wrc.context m n).leftWrite a ≠ .read := by
    cases a with
    | seq =>
      change Oper.write ≠ .read
      decide
    | random =>
      change Oper.null ≠ .read
      decide
  have hwrites : forall k,
      ReadsCompared (replicate k ((RatioForm.wrc.context m n).leftWrite a)) := by
    intro k
    induction k with
    | zero => trivial
    | succ k ih =>
      rw [replicate_succ]
      generalize (RatioForm.wrc.context m n).leftWrite a = oper at hne ih ⊢
      cases oper with
      | read => exact absurd rfl hne
      | write | compare | discard | null => exact ih
  have hrounds : forall k, ReadsCompared (replicate k RatioForm.wrc.letters).flatten :=
    readsCompared_replicate ⟨rfl, trivial⟩ (by decide)
  have hreads : forall k, ReadsCompared (replicate k (RatioForm.wrc.letters.drop 1)).flatten :=
    readsCompared_replicate ⟨rfl, trivial⟩ (by decide)
  have hlast : forall k,
      (replicate k RatioForm.wrc.letters).flatten.getLast? ≠ some .read := by
    intro k
    cases k with
    | zero => decide
    | succ k =>
      rw [replicate_succ', flatten_append]
      simp [letters]
  refine readsCompared_append (hrounds _) (readsCompared_append (hwrites _) (hreads _) ?_) (hlast _)
  intro hread
  exact hne (eq_of_mem_replicate (mem_of_getLast? hread)).symm

theorem counts_of_writeFirst (hform : form = .wrc ∨ form = .wr) :
    form.writes m = m ∧ form.reads n = n := by
  rcases hform with rfl | rfl <;> exact ⟨rfl, rfl⟩

theorem performs_of_writeFirst (hm : 1 ≤ m) (hn : 1 ≤ n) (hform : form = .wrc ∨ form = .wr)
    (hbalanced : a = .seq ∨ m ≤ n) :
    Performs form m n ((form.context m n).roundOpers a) := by
  obtain ⟨hw, hr⟩ : form.writes m = m ∧ form.reads n = n := counts_of_writeFirst hform
  rcases counts_context hm hn hw hr with ⟨hrounds, hwrites, hreads⟩
  have hleft : (form.context m n).nwritesLeft = 0 ∨ (form.context m n).leftWrite a = .write := by
    rcases hbalanced with rfl | hle
    · right
      rcases hform with rfl | rfl <;> rfl
    · left
      omega
  have hone : form.letters.count .write = 1 ∧ form.letters.count .read = 1 ∧
      (form.letters.drop 1).count .write = 0 ∧ (form.letters.drop 1).count .read = 1 := by
    rcases hform with rfl | rfl <;> decide
  constructor
  case writes =>
    rw [count_roundOpers, hw]
    change _ * form.letters.count _ + (_ + _ * (form.letters.drop 1).count _) = _
    rw [hrounds, hwrites, hreads, hone.1, hone.2.2.1]
    rcases hleft with hzero | hwrite
    · split_ifs <;> omega
    · rw [if_pos hwrite]
      omega
  case reads =>
    rw [count_roundOpers, hr]
    change _ * form.letters.count _ + (_ + _ * (form.letters.drop 1).count _) = _
    rw [hrounds, hwrites, hreads, hone.2.1, hone.2.2.2]
    rcases hleft with hzero | hwrite
    · split_ifs <;> omega
    · rw [if_neg (by rw [hwrite]; decide)]
      omega
  case compared =>
    intro hcompares
    have hwrc : form = .wrc := by
      rcases hform with rfl | rfl
      · rfl
      · cases hcompares
    subst hwrc
    exact readsCompared_wrc

theorem performs_rw_iff (hm : 1 ≤ m) (hn : 1 ≤ n) :
    Performs .rw m n ((RatioForm.rw.context m n).roundOpers a) <-> m = n := by
  rcases @counts_context .rw m n hm hn rfl rfl with ⟨hrounds, hwrites, hreads⟩
  have hleft : (RatioForm.rw.context m n).leftWrite a ≠ .write := by
    cases a with
    | seq =>
      change Oper.read ≠ .write
      decide
    | random =>
      change Oper.null ≠ .write
      decide
  have hcount : ((RatioForm.rw.context m n).roundOpers a).count .write = n := by
    rw [count_roundOpers, if_neg hleft]
    change _ * 1 + (0 + _ * 1) = n
    omega
  constructor
  · intro h
    have hm' := h.writes
    rw [hcount] at hm'
    exact hm'.symm
  · rintro rfl
    have hzero : (RatioForm.rw.context m m).nwritesLeft = 0 := by
      rw [hwrites, Nat.sub_self]
    refine ⟨hcount, ?_, fun hcompares => nomatch hcompares⟩
    rw [count_roundOpers, hzero, ite_self]
    change _ * 1 + (0 + _ * 0) = m
    omega

theorem performs_iff_balanced (hm : 1 ≤ m) (hn : 1 ≤ n) : .null ∉ (form.context m n).roundOpers a ∧
        Performs form m n ((form.context m n).roundOpers a) <->
      form.Balanced a m n := by
  have hwriteFirst : (form = .wrc ∨ form = .wr) -> (.null ∉ (form.context m n).roundOpers a ∧
        Performs form m n ((form.context m n).roundOpers a) <-> a = .seq ∨ m ≤ n) := by
    intro hform
    obtain ⟨hw, hr⟩ : form.writes m = m ∧ form.reads n = n := counts_of_writeFirst hform
    rw [null_mem_roundOpers_iff hm hn hw hr]
    constructor
    · rintro ⟨hnull, _⟩
      cases a with
      | seq => exact .inl rfl
      | random => exact .inr (not_lt.mp fun hlt => hnull ⟨rfl, hlt⟩)
    · intro hbalanced
      refine ⟨?_, performs_of_writeFirst hm hn hform hbalanced⟩
      rintro ⟨rfl, hlt⟩
      rcases hbalanced with hseq | hle
      · cases hseq
      · omega
  cases form with
  | wrc => exact hwriteFirst (.inl rfl)
  | wr => exact hwriteFirst (.inr rfl)
  | rw =>
    rw [performs_rw_iff hm hn, null_mem_roundOpers_iff hm hn rfl rfl]
    constructor
    · intro h
      exact h.2
    · rintro (rfl : m = n)
      exact ⟨fun h => absurd h.2 (lt_irrefl m), rfl⟩
  | w =>
    rw [roundOpers_w hm]
    refine iff_of_true ⟨fun hmem => ?_, ?_, ?_, fun h => nomatch h⟩ trivial
    · cases eq_of_mem_replicate hmem
    · exact count_replicate_self
    · simp [count_replicate, reads]
  | rc =>
    rw [roundOpers_reads (.inl rfl) hn]
    refine iff_of_true ⟨?_, ?_, ?_, fun _ => ?_⟩ trivial
    · simp [letters]
    · simp [count_flatten, letters, writes]
    · simp [count_flatten, letters, reads]
    · have hbody : ReadsCompared RatioForm.rc.letters := ⟨rfl, trivial⟩
      exact readsCompared_replicate hbody (by decide) n
  | r =>
    rw [roundOpers_reads (.inr rfl) hn]
    refine iff_of_true ⟨?_, ?_, ?_, fun h => nomatch h⟩ trivial
    · simp [letters]
    · simp [count_replicate, letters, writes]
    · simp [letters, reads]

theorem counts_lt_of_fits {upper : Bool} (h : (form.text upper m n).length < operStrSz) :
    form.writes m < 2 ^ 32 ∧ form.reads n < 2 ^ 32 := by
  have hdigits : forall k, (toDigits 10 k).length ≤ 9 -> k < 2 ^ 32 := by
    intro k hk
    rw [length_toDigits_le_iff (by decide) (by decide)] at hk
    exact lt_trans hk (by decide)
  unfold text operStrSz at h
  rw [String.length_ofList] at h
  cases form with
  | w =>
    simp only [chars, length_counted] at h
    exact ⟨hdigits m (by omega), Nat.two_pow_pos 32⟩
  | rc | r =>
    simp only [chars, length_append, length_counted] at h
    exact ⟨Nat.two_pow_pos 32, hdigits n (by omega)⟩
  | wrc | rw | wr =>
    simp only [chars, length_append, length_counted] at h
    exact ⟨hdigits m (by omega), hdigits n (by omega)⟩

end RatioForm

/-!
# The ratio
-/

section

open RatioForm

variable {form : RatioForm} {upper : Bool} {m n : Nat} {a : Access}

theorem fits_of_ratioKept (h : RatioKept form upper m n a) :
    (form.text upper m n).length < operStrSz := by
  rcases h with ⟨p, hp, _⟩
  unfold operationsOf at hp
  split_ifs at hp with hfits
  exact hfits

theorem operationsOf_text (hfits : (form.text upper m n).length < operStrSz) :
    operationsOf (form.text upper m n) = some (form.parsed m n) := by
  rcases counts_lt_of_fits hfits with ⟨hw, hr⟩
  rw [operationsOf, if_pos hfits, populateOperations_text form upper hw hr]

def undisturbed (ctx : LoopContext) : TestEnv where
  ctx := ctx
  numOper := fun _ => some 1
  blkRange := fun _ => (0, 0)
  succeeds := fun _ => true
  leaves := fun _ => false

theorem iteration_undisturbed {env : TestEnv} (hctx : env.ctx = form.context m n)
    (hall : forall k, env.succeeds k = true) {st : TestState} (hclean : st.Clean) :
    (.null ∉ (form.context m n).roundOpers a ->
      exists st', st.iteration env a = .ok st' ∧
        st'.calls = (((form.context m n).roundOpers a).map fun oper =>
          (oper, true)).reverse ++ st.calls) ∧
      (.null ∈ (form.context m n).roundOpers a ->
        forall st', st.iteration env a = .ok st' -> st'.Leaked) := by
  have hround : (env.ctx.schedule a).map Prod.snd = (form.context m n).roundOpers a := by
    rw [hctx]
    exact map_snd_schedule rfl rfl
  have hfollows := iteration_follows env a
  have hpasses := @verdict_of_succeeds (env.ctx.schedule a) env.succeeds hall st.calls.length
  have hnull : (forall call, call ∈ env.ctx.schedule a -> call.2 ≠ .null) <->
      .null ∉ (form.context m n).roundOpers a := by
    rw [← hround, mem_map]
    constructor
    · rintro h ⟨call, hcall, hsnd⟩
      exact h call hcall hsnd
    · intro h call hcall hsnd
      exact h ⟨call, hcall, hsnd⟩
  constructor
  · intro hnone
    rcases hfollows.passes st hclean (hpasses.mpr (hnull.mpr hnone)) with ⟨st', hst', _, hcalls⟩
    refine ⟨st', hst', ?_⟩
    rw [hcalls, ← hround, map_map]
    rfl
  · intro hmem st' hst'
    cases hv : verdict env.succeeds st.calls.length (env.ctx.schedule a) with
    | passes => exact absurd hmem (hnull.mp (hpasses.mp hv))
    | fails =>
      rcases hfollows.fails st hclean hv with ⟨_, herror, _⟩
      cases herror.symm.trans hst'
    | spoils =>
      have hspoiled := hfollows.spoils st hclean hv
      rwa [hst'] at hspoiled

theorem ratioKept_of_balanced (hm : 1 ≤ m) (hn : 1 ≤ n)
    (hfits : (form.text upper m n).length < operStrSz) (h : form.Balanced a m n) :
    RatioKept form upper m n a := by
  rcases (performs_iff_balanced hm hn).mpr h with ⟨hnull, hperforms⟩
  refine ⟨form.parsed m n, operationsOf_text hfits, fun env hctx hall st hclean => ?_⟩
  rcases (iteration_undisturbed hctx hall hclean).1 hnull with ⟨st', hst', hcalls⟩
  exact ⟨st', _, hst', hcalls, hperforms⟩

theorem balanced_of_ratioKept (hm : 1 ≤ m) (hn : 1 ≤ n) (h : RatioKept form upper m n a) :
    form.Balanced a m n := by
  have hfits := fits_of_ratioKept h
  rcases h with ⟨p, hp, hkept⟩
  cases hp.symm.trans (operationsOf_text hfits)
  have hclean : start.Clean := ⟨rfl, fun call hcall => nomatch hcall⟩
  rcases hkept (undisturbed (form.context m n)) rfl (fun _ => rfl) .start hclean with
    ⟨st, opers, hst, hcalls, hperforms⟩
  have hiteration := @iteration_undisturbed form m n a (undisturbed (form.context m n)) rfl
    (fun _ => rfl) .start hclean
  have hnull : .null ∉ (form.context m n).roundOpers a := by
    intro hmem
    rcases (hiteration.2 hmem st hst).2 with ⟨call, hcall, hfailed⟩
    rw [hcalls, start, append_nil, mem_reverse, mem_map] at hcall
    rcases hcall with ⟨_, _, rfl⟩
    cases hfailed
  rcases hiteration.1 hnull with ⟨st', hst', hcalls'⟩
  cases hst.symm.trans hst'
  have hopers : opers = (form.context m n).roundOpers a := by
    rw [hcalls, start, append_nil, append_nil] at hcalls'
    have hmap := congrArg (map Prod.fst) (reverse_injective hcalls')
    simpa [Function.comp_def] using hmap
  rw [hopers] at hperforms
  exact (performs_iff_balanced hm hn).mp ⟨hnull, hperforms⟩

end

/-- The promised numbers are performed exactly when the string fits its field and the
left-over loops have nothing to look for at the wrong place. -/
theorem ratioKept_iff_balanced (form : RatioForm) (upper : Bool) {m n : Nat} (hm : 1 ≤ m)
    (hn : 1 ≤ n) (a : Access) :
    RatioKept form upper m n a <-> (form.text upper m n).length < operStrSz ∧ form.Balanced a m n :=
  ⟨fun h => ⟨fits_of_ratioKept h, balanced_of_ratioKept hm hn h⟩,
    fun h => ratioKept_of_balanced hm hn h.1 h.2⟩

theorem ratioKept_w2r5c : RatioKept .wrc false 2 5 .seq ∧ RatioKept .wrc false 2 5 .random := by
  have hfits : (RatioForm.wrc.text false 2 5).length < operStrSz := by
    rw [RatioForm.text, String.length_ofList]
    decide
  exact ⟨(ratioKept_iff_balanced .wrc false (by decide) (by decide) .seq).mpr ⟨hfits, .inl rfl⟩,
    (ratioKept_iff_balanced .wrc false (by decide) (by decide) .random).mpr
      ⟨hfits, .inr (by decide)⟩⟩

/-- `r[1]w[2]` writes once and reads twice in the SEQ section, and `w[2]r[1]c` calls
a null pointer in the RANDOM section. -/
theorem ratio_lost : (exists st, start.iteration
        (undisturbed { populateOperations "r[1]w[2]" with bwrc := false, hotness := 1 })
        .seq = .ok st ∧ st.calls.map Prod.fst = [.read, .write, .read]) ∧
      (exists st, start.iteration
        (undisturbed { populateOperations "w[2]r[1]c" with bwrc := false, hotness := 1 })
        .random = .error ⟨.nullCall, st⟩) ∧
      ¬ RatioKept .rw false 2 1 .seq ∧ ¬ RatioKept .wrc false 2 1 .random := by
  refine ⟨⟨⟨[(.read, true), (.write, true), (.read, true)], 2, []⟩, by decide, by decide⟩,
    ⟨⟨[(.compare, true), (.read, true), (.write, true)], 2, [(0, 0)]⟩, by decide⟩, ?_, ?_⟩
  · intro h
    have hequal : 2 = 1 := balanced_of_ratioKept (by decide) (by decide) h
    cases hequal
  · intro h
    have hbalanced : Access.random = .seq ∨ 2 ≤ 1 :=
      balanced_of_ratioKept (by decide) (by decide) h
    exact absurd hbalanced (by decide)

end Htx.Hxestorage
