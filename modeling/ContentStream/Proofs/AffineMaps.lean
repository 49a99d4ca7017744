import Mathlib.Tactic.Ring
import ContentStream.Proofs.ExactDecimals
import ContentStream.Run.Execute

/-!
# Matrices act on points

A matrix of decimals stands for an affine map of the rational plane, its `value`. The maps form a
monoid (`Affine`), which acts on the plane from the right: a product applies its left factor first.

**Theorem (`matrices_act`).** The computations with matrices follow these maps.

* Products with the identity and translations are products of the maps, whatever the decimals are.
* All else holds as long as nothing runs out of room and nothing is rounded (`Matrix.MulExact`,
  `Matrix.ImageExact`), which is so for entries without places. Then products are associative, and the
  image under a product is the image of the image. So the operators `cm` of a stream, one behind the
  other, map points by the last matrix first and by the matrix in front of them all last.

Every entry is computed by `dot?`. An exact `dot?` gives the number it should (`toRat_of_dot?`), and
the laws are then those of the rational numbers.
-/

namespace ContentStream

/-! ## Affine maps of the rational plane -/

/-- The map that sends `(x, y)` to `(a x + c y + e, b x + d y + f)`. -/
@[ext]
structure Affine where
  a : ℚ
  b : ℚ
  c : ℚ
  d : ℚ
  e : ℚ
  f : ℚ

namespace Affine

instance : One Affine := ⟨⟨1, 0, 0, 1, 0, 0⟩⟩

/-- First the left factor, then the right one. -/
instance : Mul Affine :=
  ⟨fun m n =>
    { a := n.a * m.a + n.c * m.b
      b := n.b * m.a + n.d * m.b
      c := n.a * m.c + n.c * m.d
      d := n.b * m.c + n.d * m.d
      e := n.a * m.e + n.c * m.f + n.e
      f := n.b * m.e + n.d * m.f + n.f }⟩

theorem one_def : (1 : Affine) = ⟨1, 0, 0, 1, 0, 0⟩ := rfl

theorem mul_def (m n : Affine) :
    m * n =
      { a := n.a * m.a + n.c * m.b
        b := n.b * m.a + n.d * m.b
        c := n.a * m.c + n.c * m.d
        d := n.b * m.c + n.d * m.d
        e := n.a * m.e + n.c * m.f + n.e
        f := n.b * m.e + n.d * m.f + n.f } := rfl

instance : Monoid Affine where
  one_mul m := by ext <;> simp [one_def, mul_def]
  mul_one m := by ext <;> simp [one_def, mul_def]
  mul_assoc m n k := by ext <;> simp only [mul_def] <;> ring

def apply (m : Affine) (v : ℚ × ℚ) : ℚ × ℚ :=
  (m.a * v.1 + m.c * v.2 + m.e, m.b * v.1 + m.d * v.2 + m.f)

theorem apply_mul (m n : Affine) (v : ℚ × ℚ) : (m * n).apply v = n.apply (m.apply v) := by
  ext <;> simp only [apply, mul_def] <;> ring

end Affine

namespace Matrix

/-! ## The entries of a product -/

section Dot

variable {a b c d e r : Decimal}

/-- How `a * b + c * d + e` is computed. -/
theorem dot?_eq_some : dot? a b c d e = some r ↔
    ∃ ab cd sum, a.mul? b = some ab ∧ c.mul? d = some cd ∧ ab.add? cd = some sum ∧
      sum.add? e = some r := by
  simp only [dot?, Option.bind_eq_bind, Option.bind_eq_some_iff]
  constructor
  · rintro ⟨ab, hab, cd, hcd, sum, hsum, h⟩
    exact ⟨ab, cd, sum, hab, hcd, hsum, h⟩
  · rintro ⟨ab, cd, sum, hab, hcd, hsum, h⟩
    exact ⟨ab, hab, cd, hcd, sum, hsum, h⟩

theorem dot?_comm (a b c d e : Decimal) : dot? a b c d e = dot? b a d c e := by
  unfold dot?
  rw [Decimal.mul?_comm a b, Decimal.mul?_comm c d]

theorem dot?_of_isZero (ha : a.isZero = true) (hc : c.isZero = true) (b d e : Decimal) :
    dot? a b c d e = some e := by
  have hzero : (0 : Decimal).isZero = true := rfl
  simp [dot?, Decimal.mul?_of_isZero ha, Decimal.mul?_of_isZero hc, Decimal.add?_of_isZero hzero]

theorem dot?_one_zero (a c : Decimal) : dot? a 1 c 0 0 = some a.plain :=
  dot?_eq_some.2 ⟨_, _, _, a.mul?_one, c.mul?_zero, a.plain_add?_zero, a.plain_add?_zero⟩

theorem dot?_zero_one (a c : Decimal) : dot? a 0 c 1 0 = some c.plain :=
  dot?_eq_some.2
    ⟨_, _, _, a.mul?_zero, c.mul?_one, Decimal.add?_of_isZero rfl c.plain, c.plain_add?_zero⟩

/-- Neither the products nor the sums of `a * b + c * d + e` are rounded. -/
def DotExact (a b c d e : Decimal) : Prop :=
  a.MulExact b ∧ c.MulExact d ∧
    ∀ ab cd, a.mul? b = some ab → c.mul? d = some cd →
      ab.AddExact cd ∧ ∀ sum, ab.add? cd = some sum → sum.AddExact e

theorem toRat_of_dot? (hexact : DotExact a b c d e) (h : dot? a b c d e = some r) :
    r.toRat = a.toRat * b.toRat + c.toRat * d.toRat + e.toRat := by
  obtain ⟨ab, cd, sum, hab, hcd, hsum, hr⟩ := dot?_eq_some.1 h
  obtain ⟨hab', hcd', hsums⟩ := hexact
  obtain ⟨hsum', hr'⟩ := hsums ab cd hab hcd
  rw [hr' sum hsum r hr, hsum' sum hsum, hab' ab hab, hcd' cd hcd]

theorem toRat_of_dot?_zero (hexact : DotExact a b c d 0) (h : dot? a b c d 0 = some r) :
    r.toRat = a.toRat * b.toRat + c.toRat * d.toRat := by
  rw [toRat_of_dot? hexact h, Decimal.toRat_of_isZero (a := 0) rfl, add_zero]

theorem dotExact_of_whole (ha : a.Whole) (hb : b.Whole) (hc : c.Whole) (hd : d.Whole)
    (he : e.Whole) : DotExact a b c d e := by
  refine ⟨ha.mulExact hb, hc.mulExact hd, fun ab cd hab hcd => ?_⟩
  have hab' := (Decimal.mul?_whole ha hb hab).1
  have hcd' := (Decimal.mul?_whole hc hd hcd).1
  exact ⟨hab'.addExact hcd', fun sum hsum => (Decimal.add?_whole hab' hcd' hsum).1.addExact he⟩

theorem dot?_whole (ha : a.Whole) (hb : b.Whole) (hc : c.Whole) (hd : d.Whole) (he : e.Whole)
    (h : dot? a b c d e = some r) : r.Whole := by
  obtain ⟨ab, cd, sum, hab, hcd, hsum, hr⟩ := dot?_eq_some.1 h
  have hab' := (Decimal.mul?_whole ha hb hab).1
  have hcd' := (Decimal.mul?_whole hc hd hcd).1
  exact (Decimal.add?_whole (Decimal.add?_whole hab' hcd' hsum).1 he hr).1

end Dot

/-! ## Exact products and images -/

/-- The map that a matrix stands for. -/
def value (m : Matrix) : Affine :=
  ⟨m.a.toRat, m.b.toRat, m.c.toRat, m.d.toRat, m.e.toRat, m.f.toRat⟩

variable {m m₀ m₁ : Matrix} {p q : Point}

theorem mul?_eq_some : m₁.mul? m₀ = some m ↔
    dot? m₀.a m₁.a m₀.c m₁.b 0 = some m.a ∧ dot? m₀.b m₁.a m₀.d m₁.b 0 = some m.b ∧
      dot? m₀.a m₁.c m₀.c m₁.d 0 = some m.c ∧ dot? m₀.b m₁.c m₀.d m₁.d 0 = some m.d ∧
      dot? m₀.a m₁.e m₀.c m₁.f m₀.e = some m.e ∧ dot? m₀.b m₁.e m₀.d m₁.f m₀.f = some m.f := by
  simp only [mul?, Option.bind_eq_bind, Option.bind_eq_some_iff, Option.pure_def, Option.some.injEq]
  constructor
  · rintro ⟨a, ha, b, hb, c, hc, d, hd, e, he, f, hf, rfl⟩
    exact ⟨ha, hb, hc, hd, he, hf⟩
  · rintro ⟨ha, hb, hc, hd, he, hf⟩
    exact ⟨m.a, ha, m.b, hb, m.c, hc, m.d, hd, m.e, he, m.f, hf, rfl⟩

theorem image?_eq_some : m.image? p = some q ↔
    dot? m.a p.x m.c p.y m.e = some q.x ∧ dot? m.b p.x m.d p.y m.f = some q.y := by
  simp only [image?, Option.bind_eq_bind, Option.bind_eq_some_iff, Option.pure_def,
    Option.some.injEq]
  constructor
  · rintro ⟨x, hx, y, hy, rfl⟩
    exact ⟨hx, hy⟩
  · rintro ⟨hx, hy⟩
    exact ⟨q.x, hx, q.y, hy, rfl⟩

/-- No product and no sum in `m₁.mul? m₀` is rounded. -/
structure MulExact (m₁ m₀ : Matrix) : Prop where
  a : DotExact m₀.a m₁.a m₀.c m₁.b 0
  b : DotExact m₀.b m₁.a m₀.d m₁.b 0
  c : DotExact m₀.a m₁.c m₀.c m₁.d 0
  d : DotExact m₀.b m₁.c m₀.d m₁.d 0
  e : DotExact m₀.a m₁.e m₀.c m₁.f m₀.e
  f : DotExact m₀.b m₁.e m₀.d m₁.f m₀.f

/-- No product and no sum in `m.image? p` is rounded. -/
structure ImageExact (m : Matrix) (p : Point) : Prop where
  x : DotExact m.a p.x m.c p.y m.e
  y : DotExact m.b p.x m.d p.y m.f

theorem MulExact.value (hexact : m₁.MulExact m₀) (h : m₁.mul? m₀ = some m) :
    m.value = m₁.value * m₀.value := by
  obtain ⟨ha, hb, hc, hd, he, hf⟩ := mul?_eq_some.1 h
  ext
  · exact toRat_of_dot?_zero hexact.a ha
  · exact toRat_of_dot?_zero hexact.b hb
  · exact toRat_of_dot?_zero hexact.c hc
  · exact toRat_of_dot?_zero hexact.d hd
  · exact toRat_of_dot? hexact.e he
  · exact toRat_of_dot? hexact.f hf

theorem ImageExact.value (hexact : m.ImageExact p) (h : m.image? p = some q) :
    q.value = m.value.apply p.value := by
  obtain ⟨hx, hy⟩ := image?_eq_some.1 h
  exact Prod.ext (toRat_of_dot? hexact.x hx) (toRat_of_dot? hexact.y hy)

/-! ## The identity and translations -/

theorem value_identity_mul? (m : Matrix) : (identity.mul? m).map Matrix.value = some m.value := by
  have hproduct : identity.mul? m =
      some ⟨m.a.plain, m.b.plain, m.c.plain, m.d.plain, m.e, m.f⟩ :=
    mul?_eq_some.2 ⟨dot?_one_zero _ _, dot?_one_zero _ _, dot?_zero_one _ _, dot?_zero_one _ _,
      (dot?_comm ..).trans (dot?_of_isZero rfl rfl _ _ _),
      (dot?_comm ..).trans (dot?_of_isZero rfl rfl _ _ _)⟩
  simp [hproduct, Matrix.value, Decimal.toRat_plain]

theorem value_mul?_identity (m : Matrix) : (m.mul? identity).map Matrix.value = some m.value := by
  have hproduct : m.mul? identity =
      some ⟨m.a.plain, m.b.plain, m.c.plain, m.d.plain, m.e.plain, m.f.plain⟩ := by
    refine mul?_eq_some.2 ⟨?_, ?_, ?_, ?_, ?_, ?_⟩
    · exact (dot?_comm ..).trans (dot?_one_zero _ _)
    · exact (dot?_comm ..).trans (dot?_zero_one _ _)
    · exact (dot?_comm ..).trans (dot?_one_zero _ _)
    · exact (dot?_comm ..).trans (dot?_zero_one _ _)
    · exact (dot?_comm ..).trans (dot?_one_zero _ _)
    · exact (dot?_comm ..).trans (dot?_zero_one _ _)
  simp [hproduct, Matrix.value, Decimal.toRat_plain]

/-- A translation comes to a product, and runs out of room where the product does. -/
theorem value_translate? (m : Matrix) (v : Point) :
    (m.translate? v).map Matrix.value = (mul? ⟨1, 0, 0, 1, v.x, v.y⟩ m).map Matrix.value := by
  have he := dot?_comm m.a v.x m.c v.y m.e
  have hf := dot?_comm m.b v.x m.d v.y m.f
  simp only [translate?, mul?, dot?_one_zero, dot?_zero_one, he, hf]
  cases dot? v.x m.a v.y m.c m.e with
  | none => rfl
  | some e =>
    cases dot? v.x m.b v.y m.d m.f with
    | none => rfl
    | some f => simp [Matrix.value, Decimal.toRat_plain]

/-! ## One map after the other -/

/-- The matrix that comes of `m` when others are put in front of it, one after the other. -/
def concat? (m : Matrix) (ms : List Matrix) : Option Matrix := ms.foldlM (fun m m₁ => m₁.mul? m) m

/-- None of these products is rounded. -/
def ConcatExact : (m : Matrix) → List Matrix → Prop
  | _, [] => True
  | m, m₁ :: ms => m₁.MulExact m ∧ ∀ next, m₁.mul? m = some next → ConcatExact next ms

/-- The image of a point under one map after the other. -/
def imageAll? (p : Point) (ms : List Matrix) : Option Point := ms.foldlM (fun p m => m.image? p) p

/-- None of these images is rounded. -/
def ImageAllExact : (p : Point) → List Matrix → Prop
  | _, [] => True
  | p, m :: ms => m.ImageExact p ∧ ∀ q, m.image? p = some q → ImageAllExact q ms

/-- The image of a point of the rational plane under one map after the other. -/
def applyAll (ms : List Matrix) (v : ℚ × ℚ) : ℚ × ℚ := ms.foldl (fun v m => m.value.apply v) v

theorem applyAll_append (ms ns : List Matrix) (v : ℚ × ℚ) :
    applyAll (ms ++ ns) v = applyAll ns (applyAll ms v) :=
  List.foldl_append

/-- What was put in front last is applied first. -/
theorem apply_concat? {ms : List Matrix} {all : Matrix} (hexact : ConcatExact m ms)
    (h : m.concat? ms = some all) (v : ℚ × ℚ) :
    all.value.apply v = applyAll (ms.reverse ++ [m]) v := by
  induction ms generalizing m with
  | nil =>
    cases h
    rfl
  | cons m₁ ms ih =>
    obtain ⟨next, hnext, hrest⟩ := Option.bind_eq_some_iff.1 h
    rw [ih (hexact.2 next hnext) hrest, List.reverse_cons, applyAll_append, applyAll_append,
      applyAll_append]
    show next.value.apply _ = m.value.apply (m₁.value.apply _)
    rw [hexact.1.value hnext, Affine.apply_mul]

theorem imageAll?_value {ms : List Matrix} (hexact : ImageAllExact p ms)
    (h : imageAll? p ms = some q) : q.value = applyAll ms p.value := by
  induction ms generalizing p with
  | nil =>
    cases h
    rfl
  | cons m ms ih =>
    obtain ⟨next, hnext, hrest⟩ := Option.bind_eq_some_iff.1 h
    rw [ih (hexact.2 next hnext) hrest, hexact.1.value hnext]
    rfl

/-! ## Entries without places -/

/-- All entries are without places. -/
def Whole (m : Matrix) : Prop := ∀ d ∈ m.toList, d.Whole

end Matrix

/-- Both coordinates are without places. -/
def Point.Whole (p : Point) : Prop := p.x.Whole ∧ p.y.Whole

namespace Matrix

variable {m m₀ m₁ : Matrix} {p q : Point}

theorem whole_iff : m.Whole ↔
    m.a.Whole ∧ m.b.Whole ∧ m.c.Whole ∧ m.d.Whole ∧ m.e.Whole ∧ m.f.Whole := by
  simp [Whole, toList]

theorem Whole.mulExact (h₁ : m₁.Whole) (h₀ : m₀.Whole) : m₁.MulExact m₀ := by
  obtain ⟨ha₁, hb₁, hc₁, hd₁, he₁, hf₁⟩ := whole_iff.1 h₁
  obtain ⟨ha₀, hb₀, hc₀, hd₀, he₀, hf₀⟩ := whole_iff.1 h₀
  exact {
    a := dotExact_of_whole ha₀ ha₁ hc₀ hb₁ Decimal.whole_zero
    b := dotExact_of_whole hb₀ ha₁ hd₀ hb₁ Decimal.whole_zero
    c := dotExact_of_whole ha₀ hc₁ hc₀ hd₁ Decimal.whole_zero
    d := dotExact_of_whole hb₀ hc₁ hd₀ hd₁ Decimal.whole_zero
    e := dotExact_of_whole ha₀ he₁ hc₀ hf₁ he₀
    f := dotExact_of_whole hb₀ he₁ hd₀ hf₁ hf₀ }

theorem Whole.mul? (h₁ : m₁.Whole) (h₀ : m₀.Whole) (h : m₁.mul? m₀ = some m) : m.Whole := by
  obtain ⟨ha₁, hb₁, hc₁, hd₁, he₁, hf₁⟩ := whole_iff.1 h₁
  obtain ⟨ha₀, hb₀, hc₀, hd₀, he₀, hf₀⟩ := whole_iff.1 h₀
  obtain ⟨ha, hb, hc, hd, he, hf⟩ := mul?_eq_some.1 h
  exact whole_iff.2
    ⟨dot?_whole ha₀ ha₁ hc₀ hb₁ Decimal.whole_zero ha,
      dot?_whole hb₀ ha₁ hd₀ hb₁ Decimal.whole_zero hb,
      dot?_whole ha₀ hc₁ hc₀ hd₁ Decimal.whole_zero hc,
      dot?_whole hb₀ hc₁ hd₀ hd₁ Decimal.whole_zero hd,
      dot?_whole ha₀ he₁ hc₀ hf₁ he₀ he, dot?_whole hb₀ he₁ hd₀ hf₁ hf₀ hf⟩

theorem Whole.imageExact (hm : m.Whole) (hp : p.Whole) : m.ImageExact p := by
  obtain ⟨ha, hb, hc, hd, he, hf⟩ := whole_iff.1 hm
  exact ⟨dotExact_of_whole ha hp.1 hc hp.2 he, dotExact_of_whole hb hp.1 hd hp.2 hf⟩

theorem Whole.image? (hm : m.Whole) (hp : p.Whole) (h : m.image? p = some q) : q.Whole := by
  obtain ⟨ha, hb, hc, hd, he, hf⟩ := whole_iff.1 hm
  obtain ⟨hx, hy⟩ := image?_eq_some.1 h
  exact ⟨dot?_whole ha hp.1 hc hp.2 he hx, dot?_whole hb hp.1 hd hp.2 hf hy⟩

theorem Whole.concatExact (hm : m.Whole) {ms : List Matrix} (hms : ∀ m₁ ∈ ms, m₁.Whole) :
    ConcatExact m ms := by
  induction ms generalizing m with
  | nil => trivial
  | cons m₁ ms ih =>
    have h₁ := hms m₁ List.mem_cons_self
    exact ⟨h₁.mulExact hm, fun next hnext =>
      ih (h₁.mul? hm hnext) fun m₂ h₂ => hms m₂ (List.mem_cons_of_mem _ h₂)⟩

theorem Whole.concat? (hm : m.Whole) {ms : List Matrix} (hms : ∀ m₁ ∈ ms, m₁.Whole) {all : Matrix}
    (h : m.concat? ms = some all) : all.Whole := by
  induction ms generalizing m with
  | nil =>
    cases h
    exact hm
  | cons m₁ ms ih =>
    obtain ⟨next, hnext, hrest⟩ := Option.bind_eq_some_iff.1 h
    have h₁ := hms m₁ List.mem_cons_self
    exact ih (h₁.mul? hm hnext) (fun m₂ h₂ => hms m₂ (List.mem_cons_of_mem _ h₂)) hrest

theorem imageAllExact_of_whole (hp : p.Whole) {ms : List Matrix} (hms : ∀ m ∈ ms, m.Whole) :
    ImageAllExact p ms := by
  induction ms generalizing p with
  | nil => trivial
  | cons m ms ih =>
    have hm := hms m List.mem_cons_self
    exact ⟨hm.imageExact hp, fun q hq =>
      ih (hm.image? hp hq) fun m₂ h₂ => hms m₂ (List.mem_cons_of_mem _ h₂)⟩

end Matrix

/-! ## The operator `cm` -/

namespace Processor

/-- Executes an operator `cm` for each of the matrices, one behind the other. -/
def concatAll (s : Setting) (nested : NestedRunner) (p : Processor) (ms : List Matrix) : Processor :=
  ms.foldl (fun p m => p.dispatch s nested "cm" (m.toList.map .number)) p

theorem dispatch_concat {s : Setting} {nested : NestedRunner} {p : Processor} {m next : Matrix}
    (hroom : p.exhausted s = false) (hnext : m.mul? p.gstate.ctm = some next) :
    p.dispatch s nested "cm" (m.toList.map .number) =
      { p with executed := p.executed + 1, gstate.ctm := next } := by
  have happly : p.gstate.apply (.concat m) = .ok { p.gstate with ctm := next } := by
    simp only [GraphicsState.apply, hnext]
    rfl
  have hperform : ∀ q : Processor, q.gstate = p.gstate →
      q.perform s nested (.state (.concat m)) = .done { q with gstate.ctm := next } := by
    intro q hq
    simp only [perform, adjust, hq, happly]
    rfl
  rw [dispatch, if_neg (Bool.eq_false_iff.1 hroom)]
  exact congrArg (settle p.pos "cm") (hperform { p with executed := p.executed + 1 } rfl)

/-- As long as there is room, in the numbers and for the operators, the matrices are put in front of
the one at hand, and nothing else happens. -/
theorem concatAll_eq {s : Setting} (nested : NestedRunner) {p : Processor} {ms : List Matrix}
    {all : Matrix} (hroom : ∀ limit ∈ s.config.maxOperators, p.executed + ms.length ≤ limit)
    (hall : p.gstate.ctm.concat? ms = some all) :
    p.concatAll s nested ms =
      { p with executed := p.executed + ms.length, gstate.ctm := all } := by
  induction ms generalizing p with
  | nil =>
    cases hall
    rfl
  | cons m ms ih =>
    obtain ⟨next, hnext, hrest⟩ := Option.bind_eq_some_iff.1 hall
    have hfirst : p.exhausted s = false := by
      cases hlimit : s.config.maxOperators with
      | none => simp [exhausted, hlimit]
      | some limit =>
        have hle := hroom limit hlimit
        simp only [List.length_cons] at hle
        simp only [exhausted, hlimit, Option.any_some, decide_eq_false_iff_not]
        omega
    have hlater : ∀ limit ∈ s.config.maxOperators, p.executed + 1 + ms.length ≤ limit := by
      intro limit hlimit
      have hle := hroom limit hlimit
      simp only [List.length_cons] at hle
      omega
    have htail := ih (p := { p with executed := p.executed + 1, gstate.ctm := next }) hlater hrest
    show (p.dispatch s nested "cm" (m.toList.map .number)).concatAll s nested ms = _
    rw [dispatch_concat hfirst hnext, htail]
    simp only [List.length_cons, Nat.add_assoc, Nat.add_comm 1]

end Processor

namespace Matrix

/-- **The action.** Products with the identity give the matrix back, and a translation is a product
from the left; this holds always. If all of the computations succeed and none is rounded, the image
under a product is the image of the image, products are associative, and behind operators `cm` points
are mapped by the matrix of the last one first, and by the matrix in front of them all at the end.
Nothing is rounded where the entries are without places. -/
theorem matrices_act :
    (∀ m : Matrix, (identity.mul? m).map value = some m.value ∧
      (m.mul? identity).map value = some m.value) ∧
    (∀ (m : Matrix) (v : Point),
      (m.translate? v).map value = (mul? ⟨1, 0, 0, 1, v.x, v.y⟩ m).map value) ∧
    (∀ (m₁ m₀ m : Matrix) (p q r r' : Point), m₁.mul? m₀ = some m → m.image? p = some r →
      m₁.image? p = some q → m₀.image? q = some r' → m₁.MulExact m₀ → m.ImageExact p →
      m₁.ImageExact p → m₀.ImageExact q → r.value = r'.value) ∧
    (∀ m₂ m₁ m₀ left right r r' : Matrix, m₂.mul? m₁ = some left → left.mul? m₀ = some r →
      m₁.mul? m₀ = some right → m₂.mul? right = some r' → m₂.MulExact m₁ → left.MulExact m₀ →
      m₁.MulExact m₀ → m₂.MulExact right → r.value = r'.value) ∧
    (∀ (s : Setting) (nested : NestedRunner) (p : Processor) (ms : List Matrix) (all : Matrix),
      (∀ limit ∈ s.config.maxOperators, p.executed + ms.length ≤ limit) →
      p.gstate.ctm.concat? ms = some all →
      p.concatAll s nested ms =
        { p with executed := p.executed + ms.length, gstate.ctm := all } ∧
      ∀ u v v' : Point, all.image? u = some v → imageAll? u (ms.reverse ++ [p.gstate.ctm]) = some v' →
        ConcatExact p.gstate.ctm ms → all.ImageExact u →
        ImageAllExact u (ms.reverse ++ [p.gstate.ctm]) → v.value = v'.value) ∧
    (∀ m₁ m₀ : Matrix, m₁.Whole → m₀.Whole →
      m₁.MulExact m₀ ∧ ∀ m, m₁.mul? m₀ = some m → m.Whole) ∧
    (∀ (m : Matrix) (p : Point), m.Whole → p.Whole →
      m.ImageExact p ∧ ∀ q, m.image? p = some q → q.Whole) ∧
    ∀ (m : Matrix) (ms : List Matrix) (p : Point), m.Whole → (∀ m₁ ∈ ms, m₁.Whole) → p.Whole →
      ConcatExact m ms ∧ (∀ all, m.concat? ms = some all → all.Whole) ∧ ImageAllExact p ms := by
  refine ⟨fun m => ⟨value_identity_mul? m, value_mul?_identity m⟩, value_translate?, ?_, ?_, ?_,
    fun m₁ m₀ h₁ h₀ => ⟨h₁.mulExact h₀, fun m => h₁.mul? h₀⟩,
    fun m p hm hp => ⟨hm.imageExact hp, fun q => hm.image? hp⟩,
    fun m ms p hm hms hp =>
      ⟨hm.concatExact hms, fun all => hm.concat? hms, imageAllExact_of_whole hp hms⟩⟩
  · intro m₁ m₀ m p q r r' hm hr hq hr' hexact hexactr hexactq hexactr'
    rw [hexactr.value hr, hexactr'.value hr', hexactq.value hq, hexact.value hm, Affine.apply_mul]
  · intro m₂ m₁ m₀ left right r r' hleft hr hright hr' hexactl hexactr hexactright hexactr'
    rw [hexactr.value hr, hexactr'.value hr', hexactl.value hleft, hexactright.value hright, mul_assoc]
  · intro s nested p ms all hroom hall
    refine ⟨Processor.concatAll_eq nested hroom hall, ?_⟩
    intro u v v' hv hv' hexact hexactv hexactv'
    rw [hexactv.value hv, apply_concat? hexact hall, imageAll?_value hexactv' hv']

def tenfold : Matrix := ⟨10, 0, 0, 10, 0, 0⟩

def movedRight : Matrix := ⟨1, 0, 0, 1, 100, 0⟩

/-- Behind `cm` for `tenfold` and then for `movedRight`, a point is first moved and then scaled. -/
theorem matrices_act_movedTenfold :
    let u : Point := ⟨1, 1⟩
    ∃ (all : Matrix) (v v' : Point), identity.concat? [tenfold, movedRight] = some all ∧
      all.image? u = some v ∧ imageAll? u [movedRight, tenfold, identity] = some v' ∧
      (Processor.concatAll {} (runner {} 0) {} [tenfold, movedRight]).gstate.ctm = all ∧
      v.value = v'.value ∧ v'.x.coeff = 1010 ∧ v'.y.coeff = 10 := by
  intro u
  have hu : u.Whole := ⟨rfl, rfl⟩
  have htenfold : tenfold.Whole := whole_iff.2 ⟨rfl, rfl, rfl, rfl, rfl, rfl⟩
  have hmoved : movedRight.Whole := whole_iff.2 ⟨rfl, rfl, rfl, rfl, rfl, rfl⟩
  have hidentity : identity.Whole := whole_iff.2 ⟨rfl, rfl, rfl, rfl, rfl, rfl⟩
  obtain ⟨all, hall⟩ := Option.isSome_iff_exists.1
    (by decide : (identity.concat? [tenfold, movedRight]).isSome = true)
  have himages : ((identity.concat? [tenfold, movedRight]).bind (·.image? u)).isSome = true := by
    decide
  rw [hall] at himages
  obtain ⟨v, hv⟩ := Option.isSome_iff_exists.1 himages
  have hcoeffs : ((imageAll? u [movedRight, tenfold, identity]).map fun w => (w.x.coeff, w.y.coeff)) =
      some (1010, 10) := by decide
  obtain ⟨v', hv', hcoeff⟩ := Option.map_eq_some_iff.1 hcoeffs
  obtain ⟨-, -, -, -, hcm, -, himage, hchain⟩ := matrices_act
  obtain ⟨hctm, hsame⟩ := hcm {} (runner {} 0) {} [tenfold, movedRight] all (by simp) hall
  obtain ⟨hproducts, hwhole, -⟩ := hchain identity [tenfold, movedRight] u hidentity
    (by simp [htenfold, hmoved]) hu
  obtain ⟨-, -, hpoints⟩ := hchain identity [movedRight, tenfold, identity] u hidentity
    (by simp [htenfold, hmoved, hidentity]) hu
  refine ⟨all, v, v', hall, hv, hv', by rw [hctm], ?_, ?_⟩
  · exact hsame u v v' hv hv' hproducts (himage all u (hwhole all hall) hu).1 hpoints
  · exact ⟨congrArg Prod.fst hcoeff, congrArg Prod.snd hcoeff⟩

end Matrix

end ContentStream
