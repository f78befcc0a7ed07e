import MarketFeed.Proofs.Json.Strings

/-!
# The grammar of JSON texts

What a JSON text may look like, octet by octet. Containers are told by the places in them: before
the first entry, and behind an entry. The reader that passes over a value waits at these places,
so that each rule of the grammar is a few steps of the reader, and whatever value a text holds is
passed over as a whole.

* `IsNumber`, `IsText`: numbers, values and the rest of open containers.
* `Ends`: what may follow a value.
* `skipFrom_text`: the reader passes over what the grammar allows.
* `skipValue_value`: passing over a value, whatever it holds and however deep it is.
-/

namespace MarketFeed.Json

/-! ## Blanks and ends -/

/-- Nothing but blanks. -/
def IsBlank (ws : Octets) : Prop := ∀ b ∈ ws, isSpace b = true

theorem IsBlank.nil : IsBlank [] := List.forall_mem_nil _

theorem IsBlank.append {ws ws' : Octets} (h : IsBlank ws) (h' : IsBlank ws') :
    IsBlank (ws ++ ws') := List.forall_mem_append.mpr ⟨h, h'⟩

theorem skipSpace_append {ws : Octets} (h : IsBlank ws) (rest : Octets) :
    skipSpace (ws ++ rest) = skipSpace rest :=
  List.dropWhile_append_of_pos h

theorem skipSpace_cons {b : UInt8} (h : isSpace b = false) (rest : Octets) :
    skipSpace (b :: rest) = b :: rest :=
  List.dropWhile_cons_of_neg (by simp [h])

/-- What may follow a value: the end of the text, a blank, a comma or the end of a container. -/
def Ends (rest : Octets) : Prop :=
  ∀ b ∈ rest.head?, isSpace b = true ∨ b = 0x2c ∨ b = 0x5d ∨ b = 0x7d

theorem Ends.nil : Ends [] := by simp [Ends]

theorem Ends.append_of_blank {ws rest : Octets} (hws : IsBlank ws) (h : Ends rest) :
    Ends (ws ++ rest) := by
  cases ws with
  | nil => exact h
  | cons b ws =>
    intro a ha
    obtain rfl : b = a := by simpa using ha
    exact .inl (hws b List.mem_cons_self)

theorem Ends.cons {b : UInt8} (h : b = 0x2c ∨ b = 0x5d ∨ b = 0x7d) (rest : Octets) :
    Ends (b :: rest) := by
  intro a ha
  obtain rfl : b = a := by simpa using ha
  exact .inr h

/-! ## Numbers -/

/-- Digits, at least one. -/
def IsDigits (ds : Octets) : Prop := ds ≠ [] ∧ ∀ d ∈ ds, isDigit d = true

/-- The digits before the point: none may follow a zero in front. -/
def IsWhole (ds : Octets) : Prop := IsDigits ds ∧ (ds.head? = some 0x30 → ds = [0x30])

/-- The fraction of a number, which may be missing. -/
inductive IsFraction : Octets → Prop where
  | none : IsFraction []
  | point {ds : Octets} (h : IsDigits ds) : IsFraction (0x2e :: ds)

/-- The exponent of a number, which may be missing. -/
inductive IsExponent : Octets → Prop where
  | none : IsExponent []
  | unsigned {mark : UInt8} {ds : Octets} (hmark : isExponentMark mark = true) (h : IsDigits ds) :
      IsExponent (mark :: ds)
  | signed {mark sign : UInt8} {ds : Octets} (hmark : isExponentMark mark = true)
      (hsign : sign = 0x2b ∨ sign = 0x2d) (h : IsDigits ds) : IsExponent (mark :: sign :: ds)

/-- A number without its sign. -/
def IsMagnitude (os : Octets) : Prop :=
  ∃ whole fraction exponent, IsWhole whole ∧ IsFraction fraction ∧ IsExponent exponent ∧
    os = whole ++ (fraction ++ exponent)

/-- A number. -/
inductive IsNumber : Octets → Prop where
  | positive {os : Octets} (h : IsMagnitude os) : IsNumber os
  | negative {os : Octets} (h : IsMagnitude os) : IsNumber (0x2d :: os)

/-- What comes next is no digit. -/
def NoDigit (rest : Octets) : Prop := rest.head?.any isDigit = false

theorem NoDigit.cons {b : UInt8} (h : isDigit b = false) (rest : Octets) : NoDigit (b :: rest) := h

theorem isDigit_of_isExponentMark {b : UInt8} (h : isExponentMark b = true) :
    isDigit b = false ∧ b ≠ 0x2e := by
  simp only [isExponentMark, Bool.or_eq_true, decide_eq_true_eq] at h
  rcases h with rfl | rfl <;> decide

theorem Ends.not_number {b : UInt8} {rest : Octets} (h : Ends (b :: rest)) :
    isDigit b = false ∧ b ≠ 0x2e ∧ isExponentMark b = false := by
  have hb := h b rfl
  simp only [isSpace, Bool.or_eq_true, decide_eq_true_eq] at hb
  rcases hb with (((rfl | rfl) | rfl) | rfl) | rfl | rfl | rfl <;> decide

theorem Ends.noDigit {rest : Octets} (h : Ends rest) : NoDigit rest := by
  cases rest with
  | nil => rfl
  | cons b rest => exact .cons h.not_number.1 rest

theorem dropWhile_digits {ds rest : Octets} (hds : ∀ d ∈ ds, isDigit d = true)
    (hrest : NoDigit rest) : (ds ++ rest).dropWhile isDigit = rest := by
  rw [List.dropWhile_append_of_pos hds]
  cases rest with
  | nil => rfl
  | cons b rest => exact List.dropWhile_cons_of_neg (by simpa [NoDigit] using hrest)

theorem takeWhile_digits {ds rest : Octets} (hds : ∀ d ∈ ds, isDigit d = true)
    (hrest : NoDigit rest) : (ds ++ rest).takeWhile isDigit = ds := by
  rw [List.takeWhile_append_of_pos hds]
  cases rest with
  | nil => simp
  | cons b rest => rw [List.takeWhile_cons_of_neg (by simpa [NoDigit] using hrest), List.append_nil]

/-- The first of some digits, and the others. -/
theorem IsDigits.exists_cons {ds : Octets} (h : IsDigits ds) :
    ∃ d more, ds = d :: more ∧ isDigit d = true ∧ ∀ b ∈ more, isDigit b = true := by
  obtain ⟨d, more, rfl⟩ := List.exists_cons_of_ne_nil h.1
  obtain ⟨hd, hmore⟩ := List.forall_mem_cons.mp h.2
  exact ⟨d, more, rfl, hd, hmore⟩

theorem skipExponent_unsigned {ds rest : Octets} (h : IsDigits ds) (hrest : Ends rest) :
    skipExponent (ds ++ rest) = .ok rest := by
  obtain ⟨d, more, rfl, hd, hmore⟩ := h.exists_cons
  have hdrop := dropWhile_digits hmore hrest.noDigit
  unfold skipExponent
  rw [List.cons_append]
  split
  · rename_i heq
    rw [(List.cons.inj heq).1] at hd
    cases hd
  · rename_i heq
    rw [(List.cons.inj heq).1] at hd
    cases hd
  · simp [hd, hdrop]

theorem skipExponent_signed {sign : UInt8} {ds rest : Octets} (hsign : sign = 0x2b ∨ sign = 0x2d)
    (h : IsDigits ds) (hrest : Ends rest) : skipExponent (sign :: (ds ++ rest)) = .ok rest := by
  obtain ⟨d, more, rfl, hd, hmore⟩ := h.exists_cons
  have hdrop := dropWhile_digits hmore hrest.noDigit
  rcases hsign with rfl | rfl <;> simp [skipExponent, hd, hdrop]

/-- What may come behind the digits of a number, up to its end. -/
theorem IsExponent.noDigit {exponent rest : Octets} (h : IsExponent exponent) (hrest : Ends rest) :
    NoDigit (exponent ++ rest) := by
  cases h with
  | none => exact hrest.noDigit
  | unsigned hmark _ => exact .cons (isDigit_of_isExponentMark hmark).1 _
  | signed hmark _ _ => exact .cons (isDigit_of_isExponentMark hmark).1 _

theorem IsFraction.noDigit {fraction exponent rest : Octets} (h : IsFraction fraction)
    (hexponent : IsExponent exponent) (hrest : Ends rest) :
    NoDigit (fraction ++ (exponent ++ rest)) := by
  cases h with
  | none => exact hexponent.noDigit hrest
  | point _ => exact .cons (by decide) _

theorem IsExponent.noPoint {exponent rest : Octets} (h : IsExponent exponent) (hrest : Ends rest) :
    (exponent ++ rest).head? ≠ some 0x2e := by
  cases h with
  | none =>
    cases rest with
    | nil => simp
    | cons b rest => simpa using hrest.not_number.2.1
  | unsigned hmark _ => simpa using (isDigit_of_isExponentMark hmark).2
  | signed hmark _ _ => simpa using (isDigit_of_isExponentMark hmark).2

/-- Passing over an exponent, or over nothing. -/
theorem skip_exponent {exponent rest : Octets} (h : IsExponent exponent) (hrest : Ends rest) :
    (match exponent ++ rest with
      | [] => .ok []
      | e :: more => if isExponentMark e then skipExponent more else .ok (e :: more)) =
      (.ok rest : Except Failure Octets) := by
  cases h with
  | none =>
    cases rest with
    | nil => rfl
    | cons b rest => simp [hrest.not_number.2.2]
  | unsigned hmark hds => simp [hmark, skipExponent_unsigned hds hrest]
  | signed hmark hsign hds => simp [hmark, skipExponent_signed hsign hds hrest]

theorem skipNumber_magnitude {os rest : Octets} (h : IsMagnitude os) (hrest : Ends rest) :
    skipNumber (os ++ rest) = .ok rest := by
  obtain ⟨whole, fraction, exponent, ⟨hwhole, hzero⟩, hfraction, hexponent, rfl⟩ := h
  obtain ⟨d, more, rfl, hd, hmore⟩ := hwhole.exists_cons
  have hbehind := hfraction.noDigit hexponent hrest
  have hdrop := dropWhile_digits hwhole.2 hbehind
  have hfirst : ¬ (d = 0x30 ∧
      (more ++ (fraction ++ (exponent ++ rest))).head?.any isDigit = true) := by
    rintro ⟨rfl, hany⟩
    obtain rfl : more = [] := (List.cons.inj (hzero rfl)).2
    rw [List.nil_append, hbehind] at hany
    cases hany
  rw [List.append_assoc, List.append_assoc, List.cons_append]
  unfold skipNumber
  rw [List.cons_append] at hdrop
  simp only [hd, Bool.not_true, Bool.false_eq_true, ↓reduceIte, hfirst, hdrop]
  cases hfraction with
  | none =>
    have hpoint := hexponent.noPoint hrest
    have hskip := skip_exponent hexponent hrest
    rw [List.nil_append]
    generalize exponent ++ rest = tail at hpoint hskip
    cases tail with
    | nil => exact hskip
    | cons c tail =>
      have hc : c ≠ 0x2e := by simpa using hpoint
      simpa [hc] using hskip
  | point hds =>
    have htail := dropWhile_digits hds.2 (hexponent.noDigit hrest)
    obtain ⟨d', more', rfl, hd', -⟩ := hds.exists_cons
    have hskip := skip_exponent hexponent hrest
    rw [List.cons_append] at htail
    simp only [List.cons_append, List.head?_cons, Option.any_some, hd', Bool.not_true,
      Bool.false_eq_true, ↓reduceIte, htail]
    exact hskip

theorem isSpace_of_isDigit {b : UInt8} (h : isDigit b = true) : isSpace b = false := by
  rw [Bool.eq_false_iff]
  intro hspace
  simp only [isSpace, Bool.or_eq_true, decide_eq_true_eq] at hspace
  rcases hspace with ((rfl | rfl) | rfl) | rfl <;> cases h

theorem IsMagnitude.exists_cons {os : Octets} (h : IsMagnitude os) :
    ∃ d more, os = d :: more ∧ isDigit d = true := by
  obtain ⟨whole, fraction, exponent, hwhole, -, -, rfl⟩ := h
  obtain ⟨d, more, rfl, hd, -⟩ := hwhole.1.exists_cons
  exact ⟨d, _, rfl, hd⟩

/-! ## Values -/

/-- A place in a text. -/
inductive Place where
  /-- Before a value. -/
  | value
  /-- Before the first entry of a container, or its end. -/
  | first (frame : Frame)
  /-- Behind an entry of a container. -/
  | more (frame : Frame)

/-- What stands before the value of an entry: nothing in a list, in an object a key and a colon. -/
inductive IsKey : Frame → Octets → Prop where
  | list : IsKey .list []
  | object {body ws : Octets} (hbody : IsBody body) (hws : IsBlank ws) :
      IsKey .object (0x22 :: (body ++ 0x22 :: (ws ++ [0x3a])))

/-- The texts that may stand at a place: a value, or a container from there up to its end. -/
inductive IsText : Place → Octets → Prop where
  | null : IsText .value (ascii "null")
  | true : IsText .value (ascii "true")
  | false : IsText .value (ascii "false")
  | number {os : Octets} (h : IsNumber os) : IsText .value os
  | string {body : Octets} (h : IsBody body) : IsText .value (0x22 :: (body ++ [0x22]))
  | list {os : Octets} (h : IsText (.first .list) os) : IsText .value (0x5b :: os)
  | object {os : Octets} (h : IsText (.first .object) os) : IsText .value (0x7b :: os)
  | empty {frame : Frame} {ws : Octets} (hws : IsBlank ws) :
      IsText (.first frame) (ws ++ [frame.close])
  | entry {frame : Frame} {ws key gap v os : Octets} (hws : IsBlank ws) (hkey : IsKey frame key)
      (hgap : IsBlank gap) (hv : IsText .value v) (h : IsText (.more frame) os) :
      IsText (.first frame) (ws ++ (key ++ (gap ++ (v ++ os))))
  | close {frame : Frame} {ws : Octets} (hws : IsBlank ws) :
      IsText (.more frame) (ws ++ [frame.close])
  | comma {frame : Frame} {ws ws' key gap v os : Octets} (hws : IsBlank ws) (hws' : IsBlank ws')
      (hkey : IsKey frame key) (hgap : IsBlank gap) (hv : IsText .value v)
      (h : IsText (.more frame) os) :
      IsText (.more frame) (ws ++ 0x2c :: (ws' ++ (key ++ (gap ++ (v ++ os)))))

/-- A JSON value. -/
abbrev IsValue : Octets → Prop := IsText .value

/-- A value starts with an octet that is no blank and no end of a container. -/
theorem IsValue.exists_cons {v : Octets} (h : IsValue v) :
    ∃ b more, v = b :: more ∧ isSpace b = false ∧ b ≠ 0x5d := by
  cases h with
  | null => exact ⟨0x6e, _, rfl, by decide, by decide⟩
  | true => exact ⟨0x74, _, rfl, by decide, by decide⟩
  | false => exact ⟨0x66, _, rfl, by decide, by decide⟩
  | number h =>
    cases h with
    | positive h =>
      obtain ⟨d, more, rfl, hd⟩ := h.exists_cons
      exact ⟨d, more, rfl, isSpace_of_isDigit hd, by rintro rfl; cases hd⟩
    | negative h => exact ⟨0x2d, _, rfl, by decide, by decide⟩
  | string h => exact ⟨0x22, _, rfl, by decide, by decide⟩
  | list h => exact ⟨0x5b, _, rfl, by decide, by decide⟩
  | object h => exact ⟨0x7b, _, rfl, by decide, by decide⟩

/-- What stands behind an entry ends its value. -/
theorem IsText.ends {frame : Frame} {os : Octets} (h : IsText (.more frame) os) (rest : Octets) :
    Ends (os ++ rest) := by
  cases h with
  | close hws =>
    rw [List.append_assoc]
    refine .append_of_blank hws (.cons ?_ _)
    cases frame <;> simp [Frame.close]
  | comma hws _ _ _ _ _ =>
    rw [List.append_assoc]
    exact .append_of_blank hws (.cons (.inl rfl) _)

/-! ## Passing over values -/

/-- What a reader at a place waits for. -/
def Place.awaiting : Place → Awaiting
  | .value => .value
  | .first _ => .first
  | .more _ => .more

/-- The container that is open at a place. -/
def Place.frames : Place → List Frame
  | .value => []
  | .first frame => [frame]
  | .more frame => [frame]

theorem Frame.isSpace_close (frame : Frame) : isSpace frame.close = false := by
  cases frame <;> decide

theorem Frame.close_ne_comma (frame : Frame) : 0x2c ≠ frame.close := by
  cases frame <;> decide

theorem skipKey_append {frame : Frame} {ws key : Octets} (hws : IsBlank ws)
    (hkey : IsKey frame key) :
    ∃ left, IsBlank left ∧ ∀ rest, skipKey frame (ws ++ (key ++ rest)) = .ok (left ++ rest) := by
  cases hkey with
  | list => exact ⟨ws, hws, fun rest => rfl⟩
  | @object body between hbody hbetween =>
    refine ⟨[], .nil, fun rest => ?_⟩
    simp only [skipKey, List.cons_append, List.append_assoc, skipSpace_append hws,
      skipSpace_cons (show isSpace 0x22 = false by decide), ne_eq, not_true_eq_false,
      ↓reduceIte, skipString_body hbody]
    simp only [bind, Except.bind, skipSpace_append hbetween, List.nil_append,
      skipSpace_cons (show isSpace 0x3a = false by decide), ↓reduceIte]

/-- The reader takes the key of a first entry, and stands before the value. -/
theorem skipFrom_entry {frame : Frame} {ws key gap v : Octets} (hws : IsBlank ws)
    (hkey : IsKey frame key) (hgap : IsBlank gap) (hv : IsValue v) :
    ∃ left, IsBlank left ∧ ∀ fuel outer rest,
      skipFrom (fuel + 1) .first (frame :: outer) (ws ++ (key ++ (gap ++ (v ++ rest)))) =
        skipFrom fuel .value (frame :: outer) (left ++ (v ++ rest)) := by
  cases hkey with
  | list =>
    refine ⟨[], .nil, fun fuel outer rest => ?_⟩
    obtain ⟨b, more, rfl, hb, hend⟩ := hv.exists_cons
    simp [skipFrom, skipSpace_append hws, skipSpace_append hgap, skipSpace_cons hb, Frame.close,
      hend, skipKey, bind, Except.bind]
  | @object body between hbody hbetween =>
    obtain ⟨left, hleft, hskip⟩ := skipKey_append .nil (IsKey.object hbody hbetween)
    refine ⟨left ++ gap, hleft.append hgap, fun fuel outer rest => ?_⟩
    have hskip := hskip (gap ++ (v ++ rest))
    rw [List.nil_append, List.cons_append] at hskip
    rw [skipFrom, skipSpace_append hws, List.cons_append,
      skipSpace_cons (show isSpace 0x22 = false by decide), List.append_assoc left]
    · dsimp only
      rw [if_neg (by decide), hskip]
      rfl
    · simp

/-- The same behind a comma. -/
theorem skipFrom_comma {frame : Frame} {ws ws' key gap v : Octets} (hws : IsBlank ws)
    (hws' : IsBlank ws') (hkey : IsKey frame key) (hgap : IsBlank gap) :
    ∃ left, IsBlank left ∧ ∀ fuel outer rest,
      skipFrom (fuel + 1) .more (frame :: outer)
          (ws ++ 0x2c :: (ws' ++ (key ++ (gap ++ (v ++ rest))))) =
        skipFrom fuel .value (frame :: outer) (left ++ (v ++ rest)) := by
  obtain ⟨left, hleft, hskip⟩ := skipKey_append hws' hkey
  refine ⟨left ++ gap, hleft.append hgap, fun fuel outer rest => ?_⟩
  simp [skipFrom, skipSpace_append hws, skipSpace_cons (show isSpace 0x2c = false by decide),
    frame.close_ne_comma, hskip, bind, Except.bind]

theorem readIdent_append (name rest : Octets) : readIdent name (name ++ rest) = .ok rest := by
  induction name with
  | nil => cases rest <;> rfl
  | cons b name ih => simpa [readIdent] using ih

/-- The reader gets from a place behind a text in so many steps. -/
def Skips (place : Place) (os : Octets) (cost : Nat) : Prop :=
  ∀ fuel outer ws rest, IsBlank ws → Ends rest →
    skipFrom (cost + fuel) place.awaiting (place.frames ++ outer) (ws ++ (os ++ rest)) =
      skipFrom fuel .more outer rest

/-- Blanks before a value are passed over. -/
theorem skipFrom_blank {ws : Octets} (hws : IsBlank ws) (fuel : Nat) (frames : List Frame)
    (input : Octets) :
    skipFrom (fuel + 1) .value frames (ws ++ input) = skipFrom (fuel + 1) .value frames input := by
  rw [skipFrom, skipFrom, skipSpace_append hws]

/-- One step is always fewer than the octets allow. -/
theorem exists_skips_of_one {place : Place} {os : Octets} (hos : os ≠ [])
    (h : ∀ fuel outer ws rest, IsBlank ws → Ends rest →
      skipFrom (fuel + 1) place.awaiting (place.frames ++ outer) (ws ++ (os ++ rest)) =
        skipFrom fuel .more outer rest) :
    ∃ cost, cost + 1 ≤ 2 * os.length ∧ Skips place os cost := by
  have hpos := List.length_pos_iff.mpr hos
  refine ⟨1, by omega, fun fuel outer ws rest hws hrest => ?_⟩
  rw [Nat.add_comm, h fuel outer ws rest hws hrest]

/-- A value that is passed over in one step. -/
theorem exists_skips_of_step {v : Octets} (hv : IsValue v)
    (h : ∀ fuel frames rest, Ends rest →
      skipFrom (fuel + 1) .value frames (v ++ rest) = skipFrom fuel .more frames rest) :
    ∃ cost, cost + 1 ≤ 2 * v.length ∧ Skips .value v cost := by
  obtain ⟨b, more, hcons, -⟩ := hv.exists_cons
  have hne : v ≠ [] := hcons ▸ List.cons_ne_nil b more
  exact exists_skips_of_one hne fun fuel outer ws rest hws hrest =>
    (skipFrom_blank hws fuel outer _).trans (h fuel outer rest hrest)

/-- A container is opened in one step. -/
theorem exists_skips_of_open {frame : Frame} {b : UInt8} {os : Octets}
    (hstep : ∀ fuel frames rest,
      skipFrom (fuel + 1) .value frames (b :: rest) = skipFrom fuel .first (frame :: frames) rest)
    (h : ∃ cost, cost + 1 ≤ 2 * os.length ∧ Skips (.first frame) os cost) :
    ∃ cost, cost + 1 ≤ 2 * (b :: os).length ∧ Skips .value (b :: os) cost := by
  obtain ⟨cost, hcost, h⟩ := h
  refine ⟨cost + 1, by simp only [List.length_cons]; omega,
    fun fuel outer ws rest hws hrest => ?_⟩
  have hinner := h fuel outer [] rest .nil hrest
  rw [Nat.add_right_comm, List.cons_append]
  exact (skipFrom_blank hws _ outer _).trans ((hstep _ outer _).trans hinner)

/-- A value and what stands behind it, one after the other. -/
theorem Skips.item {frame : Frame} {v os : Octets} {vcost cost : Nat} (hv : Skips .value v vcost)
    (h : Skips (.more frame) os cost) (hos : ∀ rest, Ends (os ++ rest)) {left rest : Octets}
    (hleft : IsBlank left) (hrest : Ends rest) (fuel : Nat) (outer : List Frame) :
    skipFrom (vcost + cost + fuel) .value (frame :: outer) (left ++ (v ++ (os ++ rest))) =
      skipFrom fuel .more outer rest := by
  rw [Nat.add_assoc]
  exact (hv (cost + fuel) (frame :: outer) left (os ++ rest) hleft (hos rest)).trans
    (h fuel outer [] rest .nil hrest)

theorem skipFrom_close {frame : Frame} {ws : Octets} (hws : IsBlank ws) {awaiting : Awaiting}
    (hawaiting : awaiting ≠ .value) (fuel : Nat) (outer : List Frame) (rest : Octets) :
    skipFrom (fuel + 1) awaiting (frame :: outer) (ws ++ (frame.close :: rest)) =
      skipFrom fuel .more outer rest := by
  cases awaiting with
  | value => exact absurd rfl hawaiting
  | first => simp [skipFrom, skipSpace_append hws, skipSpace_cons frame.isSpace_close]
  | more => simp [skipFrom, skipSpace_append hws, skipSpace_cons frame.isSpace_close]

/-- **Passing over what the grammar allows.** The cost is how many steps it takes; it is bounded by
the length, since every rule of the grammar has an octet for each of its steps. -/
theorem skipFrom_text {place : Place} {os : Octets} (h : IsText place os) :
    ∃ cost, cost + 1 ≤ 2 * os.length ∧ Skips place os cost := by
  induction h with
  -- What holds no other value takes one step.
  | null =>
    refine exists_skips_of_step .null fun fuel frames rest _ => ?_
    rw [show ascii "null" = 0x6e :: ascii "ull" by decide, List.cons_append, skipFrom,
      skipSpace_cons (by decide)]
    simp [readIdent_append, bind, Except.bind]
  | true =>
    refine exists_skips_of_step .true fun fuel frames rest _ => ?_
    rw [show ascii "true" = 0x74 :: ascii "rue" by decide, List.cons_append, skipFrom,
      skipSpace_cons (by decide)]
    simp [readIdent_append, bind, Except.bind]
  | false =>
    refine exists_skips_of_step .false fun fuel frames rest _ => ?_
    rw [show ascii "false" = 0x66 :: ascii "alse" by decide, List.cons_append, skipFrom,
      skipSpace_cons (by decide)]
    simp [readIdent_append, bind, Except.bind]
  | number h =>
    refine exists_skips_of_step (.number h) fun fuel frames rest hrest => ?_
    cases h with
    | positive h =>
      have hskip := skipNumber_magnitude h hrest
      obtain ⟨d, more, rfl, hd⟩ := h.exists_cons
      have hletters : d ≠ 0x6e ∧ d ≠ 0x74 ∧ d ≠ 0x66 ∧ d ≠ 0x2d := by
        refine ⟨?_, ?_, ?_, ?_⟩ <;> rintro rfl <;> cases hd
      rw [List.cons_append] at hskip
      rw [List.cons_append, skipFrom, skipSpace_cons (isSpace_of_isDigit hd)]
      simp [hletters, hd, hskip, bind, Except.bind]
    | negative h =>
      rw [List.cons_append, skipFrom, skipSpace_cons (by decide)]
      simp [skipNumber_magnitude h hrest, bind, Except.bind]
  | string h =>
    refine exists_skips_of_step (.string h) fun fuel frames rest _ => ?_
    rw [List.cons_append, skipFrom, skipSpace_cons (by decide)]
    simp [isDigit, skipString_body h, bind, Except.bind]
  -- A container takes one step more than what stands in it, and its opening allows two.
  | list _ ih =>
    refine exists_skips_of_open (fun fuel frames rest => ?_) ih
    rw [skipFrom, skipSpace_cons (by decide)]
    simp [isDigit]
  | object _ ih =>
    refine exists_skips_of_open (fun fuel frames rest => ?_) ih
    rw [skipFrom, skipSpace_cons (by decide)]
    simp [isDigit]
  | empty hws =>
    refine exists_skips_of_one (by simp) fun fuel outer before rest hbefore _ => ?_
    rw [List.append_assoc, ← List.append_assoc]
    exact skipFrom_close (hbefore.append hws) (by simp [Place.awaiting]) fuel outer rest
  | close hws =>
    refine exists_skips_of_one (by simp) fun fuel outer before rest hbefore _ => ?_
    rw [List.append_assoc, ← List.append_assoc]
    exact skipFrom_close (hbefore.append hws) (by simp [Place.awaiting]) fuel outer rest
  -- A value among others: one step up to it, then its own ones, then those of what stands behind.
  -- The blanks before it are passed over by its own first step.
  | @entry frame ws key gap v os hws hkey hgap hv h ihv ih =>
    obtain ⟨vcost, hvcost, ihv⟩ := ihv
    obtain ⟨cost, hcost, ih⟩ := ih
    refine ⟨vcost + cost + 1, by simp only [List.length_append]; omega,
      fun fuel outer before rest hbefore hrest => ?_⟩
    obtain ⟨left, hleft, hkeystep⟩ := skipFrom_entry (hbefore.append hws) hkey hgap hv
    rw [← ihv.item ih h.ends hleft hrest fuel outer, ← hkeystep, Nat.add_right_comm]
    simp only [List.append_assoc]
    rfl
  | @comma frame ws ws' key gap v os hws hws' hkey hgap hv h ihv ih =>
    obtain ⟨vcost, hvcost, ihv⟩ := ihv
    obtain ⟨cost, hcost, ih⟩ := ih
    refine ⟨vcost + cost + 1, by simp only [List.length_append, List.length_cons]; omega,
      fun fuel outer before rest hbefore hrest => ?_⟩
    obtain ⟨left, hleft, hkeystep⟩ := skipFrom_comma (v := v) (hbefore.append hws) hws' hkey hgap
    rw [← ihv.item ih h.ends hleft hrest fuel outer, ← hkeystep, Nat.add_right_comm]
    simp only [List.append_assoc, List.cons_append]
    rfl

/-- **Passing over a value** leaves what stands behind it. -/
theorem skipValue_value {ws v rest : Octets} (hws : IsBlank ws) (hv : IsValue v)
    (hrest : Ends rest) : skipValue (ws ++ (v ++ rest)) = .ok rest := by
  obtain ⟨cost, hcost, hskip⟩ := skipFrom_text hv
  have hfuel : 2 * (ws ++ (v ++ rest)).length + 2 =
      cost + (2 * (ws ++ (v ++ rest)).length + 1 - cost + 1) := by
    simp only [List.length_append]
    omega
  rw [skipValue, hfuel]
  exact (hskip _ [] ws rest hws hrest).trans (by simp [skipFrom])

end MarketFeed.Json
