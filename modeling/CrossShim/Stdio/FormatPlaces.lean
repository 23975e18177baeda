import CrossShim.Stdio.FormatParse

/-!
# The places of the arguments

What the parser does to a format is scanning its directives, numbering them and noting their arguments, in this order
(`parseLoop_eq`).  Parsing faults in the scan, at a position that is no `int`, or in noting, at a position at which the
vector would become too long.

If all positions fit, every argument that was noted has its place in the vector (`Placed`), and so have all the widths
and precisions that directives take from arguments (`parse_of_fits`).
-/

namespace CrossShim.Stdio.Format

open Lib List

/-! ## Scanning, numbering and noting -/

/-- The directives of a format, up to its end or to where the scan stops, and why it does. -/
def directives : List Byte → List FormatSpec × Option Stop
  | [] => ([], none)
  | c :: rest =>
    if c ≠ ascii '%' then directives rest
    else if rest.head? = some (ascii '%') then directives rest.tail
    else
      match h : scanSpec rest with
      | .error e => ([], some e)
      | .ok (spec, rest') =>
        have := scanSpec_shrinks h
        let (specs, stop) := directives rest'
        (spec :: specs, stop)
termination_by fmt => fmt.length
decreasing_by
  · exact Nat.lt_succ_self _
  · rw [List.length_tail, List.length_cons]
    omega
  · rw [List.length_cons]
    omega

def numberedFrom : ℕ → List FormatSpec → List FormatSpec
  | _, [] => []
  | next, spec :: specs =>
    let (spec, next) := spec.numbered next
    spec :: numberedFrom next specs

def specs (items : List FormatItem) : List FormatSpec :=
  items.filterMap fun
    | .literal _ => none
    | .directive spec => some spec

def ended : Option Stop → Except Stop Unit
  | none => .ok ()
  | some e => .error e

def noted (room : ℕ) (argKinds : List ArgKind) (specs : List FormatSpec) : Except Stop (List ArgKind) :=
  (specs.flatMap FormatSpec.args).foldlM (reservePosition room) argKinds

variable {room size next position : ℕ} {p : Parser} {spec : FormatSpec} {argKinds : List ArgKind} {arg : ℕ × ArgKind}

@[simp] lemma specs_flushLiteral (p : Parser) : specs p.flushLiteral.items = specs p.items := by
  unfold Parser.flushLiteral
  split
  · rfl
  · simp [specs]

@[simp] lemma argKinds_flushLiteral (p : Parser) : p.flushLiteral.argKinds = p.argKinds := by
  unfold Parser.flushLiteral
  split
  · rfl
  · rfl

@[simp] lemma nextSeqPosition_flushLiteral (p : Parser) : p.flushLiteral.nextSeqPosition = p.nextSeqPosition := by
  unfold Parser.flushLiteral
  split
  · rfl
  · rfl

/-- What parsing gives, without the texts between the directives. -/
def outline (r : Except Stop ParsedFormat) : Except Stop (List FormatSpec × List ArgKind) :=
  r.map fun parsed => (specs parsed.items, parsed.argKinds)

section directives

variable {c : Byte} {rest rest' : List Byte}

lemma directives_literal (hc : c ≠ ascii '%') : directives (c :: rest) = directives rest := by
  rw [directives, if_pos hc]

lemma directives_percent (hc : ¬ c ≠ ascii '%') (hr : rest.head? = some (ascii '%')) :
    directives (c :: rest) = directives rest.tail := by
  rw [directives, if_neg hc, if_pos hr]

lemma directives_error {e : Stop} (hc : ¬ c ≠ ascii '%') (hr : ¬ rest.head? = some (ascii '%'))
    (h : scanSpec rest = .error e) : directives (c :: rest) = ([], some e) := by
  rw [directives, if_neg hc, if_neg hr]
  split
  · next e' he =>
    cases h.symm.trans he
    rfl
  · next he => cases h.symm.trans he

lemma directives_ok (hc : ¬ c ≠ ascii '%') (hr : ¬ rest.head? = some (ascii '%'))
    (h : scanSpec rest = .ok (spec, rest')) :
    directives (c :: rest) = (spec :: (directives rest').1, (directives rest').2) := by
  rw [directives, if_neg hc, if_neg hr]
  split
  · next he => cases h.symm.trans he
  · next he =>
    cases h.symm.trans he
    rfl

end directives

lemma noted_cons (specs : List FormatSpec) :
    noted room argKinds (spec :: specs) =
      spec.args.foldlM (reservePosition room) argKinds >>= fun argKinds => noted room argKinds specs := by
  unfold noted
  rw [flatMap_cons, foldlM_append]

lemma directive_eq (p : Parser) (spec : FormatSpec) :
    p.directive room spec =
      (spec.numbered p.nextSeqPosition).1.args.foldlM (reservePosition room) p.argKinds >>= fun argKinds =>
        .ok { p with
          items := p.items ++ [.directive (spec.numbered p.nextSeqPosition).1], argKinds
          nextSeqPosition := (spec.numbered p.nextSeqPosition).2 } := rfl

/-- **Parsing is scanning, numbering and noting.** -/
theorem parseLoop_eq (room : ℕ) (p : Parser) (fmt : List Byte) :
    outline (parseLoop room p fmt) =
      noted room p.argKinds (numberedFrom p.nextSeqPosition (directives fmt).1) >>= fun argKinds =>
        ended (directives fmt).2 >>= fun _ =>
          .ok (specs p.items ++ numberedFrom p.nextSeqPosition (directives fmt).1, argKinds) := by
  fun_induction parseLoop room p fmt with
  | case1 p =>
    rw [directives, numberedFrom, append_nil, ← specs_flushLiteral p]
    rfl
  | case2 p c rest hc ih =>
    rw [ih, directives_literal hc]
    rfl
  | case3 p c rest hc hr ih =>
    rw [ih, directives_percent hc hr]
    rfl
  | case4 p c rest hc hr e h =>
    rw [directives_error hc hr h]
    rfl
  | case5 p c rest hc hr spec rest' h e hd =>
    rw [directives_ok hc hr h]
    dsimp only [numberedFrom]
    rw [directive_eq, argKinds_flushLiteral, nextSeqPosition_flushLiteral] at hd
    rw [noted_cons]
    cases hk : (spec.numbered p.nextSeqPosition).1.args.foldlM (reservePosition room) p.argKinds with
    | error e' =>
      rw [hk] at hd
      cases hd
      rfl
    | ok argKinds =>
      rw [hk] at hd
      cases hd
  | case6 p c rest hc hr spec rest' h p' hd this ih =>
    rw [ih, directives_ok hc hr h]
    dsimp only [numberedFrom]
    rw [directive_eq, argKinds_flushLiteral, nextSeqPosition_flushLiteral] at hd
    rw [noted_cons]
    cases hk : (spec.numbered p.nextSeqPosition).1.args.foldlM (reservePosition room) p.argKinds with
    | error e' =>
      rw [hk] at hd
      cases hd
    | ok argKinds =>
      rw [hk] at hd
      cases hd
      have hspecs (spec' : FormatSpec) :
          specs (p.flushLiteral.items ++ [.directive spec']) = specs p.items ++ [spec'] := by
        rw [← specs_flushLiteral p]
        simp [specs]
      rw [hspecs, append_assoc]
      rfl

/-! ## Room in the vector -/

/-- The argument need not be noted, or there is room at its position. -/
def Fits (room : ℕ) (arg : ℕ × ArgKind) : Prop := arg.2 ≠ .none → arg.1 < INT_MAX ∧ arg.1 < room

instance (arg : ℕ × ArgKind) : Decidable (Fits room arg) := inferInstanceAs (Decidable (_ → _))

/-- The argument need not be noted, or it has its place among so many. -/
def HasPlace (size : ℕ) (arg : ℕ × ArgKind) : Prop := arg.1 ≠ 0 → arg.2 ≠ .none → arg.1 < size

lemma HasPlace.mono {size' : ℕ} (h : HasPlace size arg) (hle : size ≤ size') : HasPlace size' arg :=
  fun h0 hk => (h h0 hk).trans_le hle

/-- A vector that is not too long, and that has the entry at 0, which stands for no argument. -/
structure VectorOk (size : ℕ) (argKinds : List ArgKind) : Prop where
  pos : 0 < argKinds.length
  le_size : argKinds.length ≤ size

@[simp] lemma length_noteKind (argKinds : List ArgKind) (position : ℕ) (kind : ArgKind) :
    (noteKind argKinds position kind).length = argKinds.length := by
  unfold noteKind
  split
  · exact length_set
  · rfl

section

variable (hv : VectorOk size argKinds) (hroom : size ≤ room)
include hv hroom

lemma growTo_ok (hint : position < INT_MAX) (hsize : position < size) :
    ∃ argKinds', growTo room argKinds position = .ok argKinds' ∧ VectorOk size argKinds' ∧
      argKinds.length ≤ argKinds'.length ∧ position < argKinds'.length := by
  unfold growTo
  by_cases hlt : position < argKinds.length
  · exact ⟨argKinds, if_pos hlt, hv, le_rfl, hlt⟩
  · rw [if_neg hlt, if_neg (by omega), if_neg (by omega)]
    refine ⟨_, rfl, ?_⟩
    have hlen : (argKinds ++ List.replicate (position + 1 - argKinds.length) ArgKind.none).length = position + 1 := by
      rw [length_append, length_replicate]
      omega
    rw [hlen]
    exact ⟨⟨by omega, by omega⟩, by omega, by omega⟩

/-- **Noting one argument**: if it fits it gets its place, and nothing loses one. -/
lemma reservePosition_ok (hfits : Fits size arg) :
    ∃ argKinds', reservePosition room argKinds arg = .ok argKinds' ∧ VectorOk size argKinds' ∧
      argKinds.length ≤ argKinds'.length ∧ HasPlace argKinds'.length arg := by
  unfold reservePosition
  by_cases hskip : arg.1 = 0 ∨ arg.2 = .none
  · rw [if_pos hskip]
    refine ⟨argKinds, rfl, hv, le_rfl, fun h0 hk => ?_⟩
    exact (not_or.2 ⟨h0, hk⟩ hskip).elim
  · rw [if_neg hskip]
    obtain ⟨hint, hsize⟩ := hfits (not_or.1 hskip).2
    obtain ⟨argKinds₁, hgrow, hv₁, hle, hlt⟩ := growTo_ok hv hroom hint hsize
    rw [hgrow]
    have hlen := length_noteKind argKinds₁ arg.1 arg.2
    refine ⟨_, rfl, ⟨?_, ?_⟩, ?_, fun _ _ => ?_⟩
    · exact hlen.symm ▸ hv₁.pos
    · exact hlen.symm ▸ hv₁.le_size
    · exact hlen.symm ▸ hle
    · exact hlen.symm ▸ hlt

end

/-- **Noting arguments one after the other**: if all fit, all get their places. -/
lemma reserveAll_ok {args : List (ℕ × ArgKind)} (hv : VectorOk size argKinds) (hroom : size ≤ room)
    (hfits : ∀ arg ∈ args, Fits size arg) : ∃ argKinds', args.foldlM (reservePosition room) argKinds = .ok argKinds' ∧
      VectorOk size argKinds' ∧ argKinds.length ≤ argKinds'.length ∧ ∀ arg ∈ args, HasPlace argKinds'.length arg := by
  induction args generalizing argKinds with
  | nil =>
    exact ⟨argKinds, rfl, hv, le_rfl, nofun⟩
  | cons arg args ih =>
    obtain ⟨argKinds₁, hstep, hv₁, hle₁, hplace₁⟩ := reservePosition_ok hv hroom (hfits arg mem_cons_self)
    obtain ⟨argKinds₂, hrun, hv₂, hle₂, hplace₂⟩ := ih hv₁ fun a ha => hfits a (mem_cons_of_mem _ ha)
    refine ⟨argKinds₂, ?_, hv₂, hle₁.trans hle₂, forall_mem_cons.2 ⟨hplace₁.mono hle₂, hplace₂⟩⟩
    rw [foldlM_cons, hstep]
    exact hrun

/-! ## Numbers -/

/-- Every argument that the directive takes has got a number. -/
structure FormatSpec.Numbered (spec : FormatSpec) : Prop where
  width : ∀ position, spec.width = .fromArg position → position ≠ 0
  precision : ∀ position, spec.precision = .fromArg position → position ≠ 0
  value : spec.takesValueArg = true → spec.valuePosition ≠ 0

lemma Count.numbered_spec (count : Count) (hnext : next ≠ 0) :
    (∀ position, (count.numbered next).1 = .fromArg position → position ≠ 0) ∧ (count.numbered next).2 ≠ 0 := by
  unfold Count.numbered
  split
  · refine ⟨fun position h => ?_, Nat.succ_ne_zero next⟩
    cases h
    exact hnext
  · next hno =>
    refine ⟨fun position h h0 => ?_, hnext⟩
    rw [h0] at h
    exact hno h

lemma FormatSpec.numbered_spec (spec : FormatSpec) (hnext : next ≠ 0) :
    (spec.numbered next).1.Numbered ∧ (spec.numbered next).2 ≠ 0 := by
  obtain ⟨hwidth, hnext₁⟩ := spec.width.numbered_spec hnext
  obtain ⟨hprecision, hnext₂⟩ := spec.precision.numbered_spec hnext₁
  unfold FormatSpec.numbered
  dsimp only
  split
  · exact ⟨⟨hwidth, hprecision, fun _ => hnext₂⟩, Nat.succ_ne_zero _⟩
  · next hno => exact ⟨⟨hwidth, hprecision, fun htakes h0 => hno ⟨htakes, h0⟩⟩, hnext₂⟩

lemma numbered_of_mem {specs : List FormatSpec} (hnext : next ≠ 0) :
    ∀ spec ∈ numberedFrom next specs, spec.Numbered := by
  induction specs generalizing next with
  | nil => nofun
  | cons spec₀ specs ih =>
    obtain ⟨hnumbered, hnext'⟩ := spec₀.numbered_spec hnext
    exact forall_mem_cons.2 ⟨hnumbered, ih hnext'⟩

/-! ## Parsing -/

/-- The directives of the format with their numbers. -/
def numberedDirectives (fmt : List Byte) : List FormatSpec := numberedFrom 1 (directives fmt).1

/-- **What a format must be like** to be parsed without a fault: every position is an `int`, and the arguments noted
fit. -/
structure PositionsFit (room : ℕ) (fmt : List Byte) : Prop where
  scanned : ∀ f, (directives fmt).2 ≠ some (.fault f)
  fits : ∀ spec ∈ numberedDirectives fmt, ∀ arg ∈ spec.args, Fits room arg

/-- A directive of a parsed format: its arguments have numbers, and those that were noted have places. -/
structure FormatSpec.Placed (spec : FormatSpec) (size : ℕ) : Prop where
  numbered : spec.Numbered
  hasPlace : ∀ arg ∈ spec.args, HasPlace size arg

/-- **What parsing gives** if the positions fit: the code of an error, or all directives with places for what they
take. -/
theorem parse_of_fits {fmt : List Byte} (hsize : 1 ≤ size) (hroom : size ≤ room) (hfit : PositionsFit size fmt) :
    (∃ e, parseFormatString room fmt = .error (.code e)) ∨ ∃ parsed, parseFormatString room fmt = .ok parsed ∧
      specs parsed.items = numberedDirectives fmt ∧ VectorOk size parsed.argKinds ∧
      ∀ spec ∈ numberedDirectives fmt, spec.Placed parsed.argKinds.length := by
  obtain ⟨argKinds, hrun, hv, -, hplaces⟩ :=
    reserveAll_ok (show VectorOk size [.none] from ⟨Nat.one_pos, hsize⟩) hroom (forall_mem_flatMap.2 hfit.fits)
  have hnoted : noted room [.none] (numberedFrom 1 (directives fmt).1) = .ok argKinds := hrun
  have heq : outline (parseFormatString room fmt) = _ := parseLoop_eq room {} fmt
  rw [hnoted] at heq
  cases hparse : parseFormatString room fmt with
  | error e =>
    rw [hparse] at heq
    cases hstop : (directives fmt).2 with
    | none =>
      rw [hstop] at heq
      cases heq
    | some stop =>
      rw [hstop] at heq
      cases heq
      cases e with
      | code e => exact .inl ⟨e, rfl⟩
      | fault f => exact absurd hstop (hfit.scanned f)
  | ok parsed =>
    rw [hparse] at heq
    cases hstop : (directives fmt).2 with
    | some e =>
      rw [hstop] at heq
      cases heq
    | none =>
      rw [hstop] at heq
      have hboth : (specs parsed.items, parsed.argKinds) = (numberedDirectives fmt, argKinds) := Except.ok.inj heq
      obtain ⟨hspecs, rfl⟩ := Prod.mk.inj hboth
      refine .inr ⟨parsed, rfl, hspecs, hv, fun spec hspec => ?_⟩
      exact ⟨numbered_of_mem Nat.one_ne_zero spec hspec, fun arg harg => hplaces arg (mem_flatMap.2 ⟨spec, hspec, harg⟩)⟩

end CrossShim.Stdio.Format
