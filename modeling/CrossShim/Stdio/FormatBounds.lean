import CrossShim.Stdio.FormatBinary
import CrossShim.Stdio.FormatPlaces

/-!
# The bounds of formatting

The positions that the parser gives are used as indices by the functions that format the directives.  Widths and
precisions always have their places, and so has every value that was noted.  What was not noted is the value of a
directive with a `%w` length and a conversion that is none of integers; the functions for these conversions read it all
the same (`FormatSpec.Misused`), and find it only if another directive notes that position or a later one.

`FormatOk` is the condition on the format, its arguments and the memory of the host under which formatting comes to an
end (`format_settles`).
-/

namespace CrossShim.Stdio.Format

open Lib List FormatSpec

/-! ## Faults -/

section faults

variable {α : Type}

def Faults (r : Except Stop α) : Prop := ∃ f, r = .error (.fault f)

lemma not_faults_ok (a : α) : ¬ Faults (.ok a : Except Stop α) := by
  rintro ⟨f, h⟩
  cases h

lemma not_faults_code (e : ErrorCode) : ¬ Faults (.error (.code e) : Except Stop α) := by
  rintro ⟨f, h⟩
  cases h

end faults

variable {args : List PrintArg} {spec : FormatSpec} {position : ℕ} {count : Count} {conv : Byte}

/-! ## Arguments that have their places -/

lemma argAt_ok (h : position < args.length) : argAt args position = .ok args[position] := by
  unfold argAt
  rw [getElem?_eq_getElem h]

lemma Count.value_ok (h : ∀ position, count = .fromArg position → position < args.length) :
    ∃ n, count.value args = .ok n := by
  cases count with
  | absent => exact ⟨0, rfl⟩
  | given n => exact ⟨n.val, rfl⟩
  | fromArg position =>
    have hlt := h position rfl
    refine ⟨castInt args[position].s64, ?_⟩
    change (argAt args position >>= fun arg => .ok (castInt arg.s64)) = _
    rw [argAt_ok hlt]
    rfl

lemma Count.passed_ok (h : ∀ position, count = .fromArg position → position < args.length) :
    ∃ ns, count.passed args = .ok ns := by
  cases count with
  | absent | given n => exact ⟨[], rfl⟩
  | fromArg position =>
    obtain ⟨n, hn⟩ := Count.value_ok h
    refine ⟨[n], ?_⟩
    change ((Count.fromArg position).value args >>= fun n => .ok [n]) = _
    rw [hn]
    rfl

lemma FormatSpec.Placed.width {size : ℕ} (h : spec.Placed size) (position : ℕ) (hp : spec.width = .fromArg position) :
    position < size := by
  have hplace := h.hasPlace (spec.width.position, .int) mem_cons_self
  rw [hp] at hplace
  exact hplace (h.numbered.width position hp) ArgKind.noConfusion

lemma FormatSpec.Placed.precision {size : ℕ} (h : spec.Placed size) (position : ℕ)
    (hp : spec.precision = .fromArg position) : position < size := by
  have hplace := h.hasPlace (spec.precision.position, .int) (mem_cons_of_mem _ mem_cons_self)
  rw [hp] at hplace
  exact hplace (h.numbered.precision position hp) ArgKind.noConfusion

lemma FormatSpec.Placed.value {size : ℕ} (h : spec.Placed size) (htakes : spec.takesValueArg = true)
    (hkind : spec.determineArgKind ≠ .none) : spec.valuePosition < size :=
  h.hasPlace (spec.valuePosition, spec.determineArgKind) (by simp [args]) (h.numbered.value htakes) hkind

/-! ## Asking the host -/

section

variable {host : Host} {guest : Guest}

lemma not_faults_snprintfResult (call : HostCall) : ¬ Faults (host.snprintfResult call) := by
  unfold Host.snprintfResult
  split
  · exact not_faults_ok _
  · exact not_faults_code _

lemma not_faults_argAt_bind {α : Type} {g : PrintArg → Except Stop α} (h : position < args.length)
    (hg : ∀ arg, ¬ Faults (g arg)) : ¬ Faults (argAt args position >>= g) := by
  rw [argAt_ok h]
  exact hg _

variable (h : spec.Placed args.length)

include h

lemma not_faults_hostCall (format : List Byte) (value : Option HostValue) :
    ¬ Faults (spec.hostCall host guest args format value) := by
  obtain ⟨width, hwidth⟩ := Count.passed_ok h.width
  obtain ⟨precision, hprecision⟩ := Count.passed_ok h.precision
  unfold hostCall
  rw [hwidth, hprecision]
  exact not_faults_snprintfResult _

lemma not_faults_argAt_ite (hvalue : position < args.length) {p : PrintArg → Prop} [DecidablePred p]
    {format format' : PrintArg → List Byte} {value value' : PrintArg → Option HostValue} :
    ¬ Faults (argAt args position >>= fun arg => if p arg then spec.hostCall host guest args (format arg) (value arg)
      else spec.hostCall host guest args (format' arg) (value' arg)) := by
  refine not_faults_argAt_bind hvalue fun arg => ?_
  split
  · exact not_faults_hostCall h _ _
  · exact not_faults_hostCall h _ _

lemma not_faults_formatInt (hvalue : spec.valuePosition < args.length) :
    ¬ Faults (spec.formatInt host guest args) := by
  refine not_faults_argAt_bind hvalue fun arg => ?_
  split
  all_goals first | exact not_faults_hostCall h _ _ | exact not_faults_code _

end

/-! ## Directives -/

/-- A length of the `%w` kind on a conversion that is none of integers.  Its value is read, but was not noted. -/
def FormatSpec.Misused (spec : FormatSpec) : Prop :=
  ((∃ bits, spec.length = .exactW bits) ∨ ∃ bits, spec.length = .fastW bits) ∧
    (oneOf ['p', 's', 'S', 'c', 'C'] spec.conv = true ∨ isFloatConv spec.conv = true)

def readsValue (conv : Byte) : Bool :=
  oneOf ['p', 's', 'S', 'c', 'C'] conv || isFloatConv conv || isSignedIntConv conv || isUnsignedIntConv conv

lemma takesValueArg_of_reads (h : readsValue spec.conv = true) : spec.takesValueArg = true := by
  unfold takesValueArg
  rw [Bool.not_eq_true', Bool.eq_false_iff]
  intro hno
  have hsilent := forall_oneOf (fun conv => readsValue conv = false) (by decide) hno
  cases hsilent.symm.trans h

lemma signedKind_ne_none (length : LengthMod) : signedKind length ≠ .none := by
  cases length <;> exact ArgKind.noConfusion

lemma unsignedKind_ne_none (length : LengthMod) : unsignedKind length ≠ .none := by
  cases length <;> exact ArgKind.noConfusion

lemma resolveWArgKind_ne_none (h : isSignedIntConv conv = true ∨ isUnsignedIntConv conv = true) (bytes : ℕ) :
    resolveWArgKind conv bytes ≠ .none := by
  unfold resolveWArgKind
  split_ifs with h1 h2 h3 h4
  · exact ArgKind.noConfusion
  · exact ArgKind.noConfusion
  · exact ArgKind.noConfusion
  · exact ArgKind.noConfusion
  · exact (not_or.2 ⟨h1, h3⟩ h).elim

/-- **A value that is read was noted**, unless the length is misused. -/
lemma determineArgKind_ne_none (hreads : readsValue spec.conv = true) (hno : ¬ spec.Misused) :
    spec.determineArgKind ≠ .none := by
  have hint (hw : (∃ bits, spec.length = .exactW bits) ∨ ∃ bits, spec.length = .fastW bits) :
      isSignedIntConv spec.conv = true ∨ isUnsignedIntConv spec.conv = true := by
    simp only [readsValue, Bool.or_eq_true, or_assoc] at hreads
    obtain hvalue | hfloat | hint := hreads
    · exact absurd ⟨hw, .inl hvalue⟩ hno
    · exact absurd ⟨hw, .inr hfloat⟩ hno
    · exact hint
  have hclass : oneOf ['p', 's', 'S', 'c', 'C'] spec.conv = true → oneOf ['c', 'C'] spec.conv = true ∨
      oneOf ['s'] spec.conv = true ∨ oneOf ['S'] spec.conv = true ∨ oneOf ['p', 'n'] spec.conv = true :=
    forall_oneOf (fun conv => oneOf ['c', 'C'] conv = true ∨ oneOf ['s'] conv = true ∨ oneOf ['S'] conv = true ∨
      oneOf ['p', 'n'] conv = true) (by decide)
  unfold determineArgKind
  split
  · next bits hlen => exact resolveWArgKind_ne_none (hint (.inl ⟨bits, hlen⟩)) _
  · next bits hlen => exact resolveWArgKind_ne_none (hint (.inr ⟨bits, hlen⟩)) _
  by_cases hfloat : isFloatConv spec.conv = true
  · rw [if_pos hfloat]
    split
    · exact ArgKind.noConfusion
    · exact ArgKind.noConfusion
  rw [if_neg hfloat]
  by_cases hsigned : isSignedIntConv spec.conv = true
  · rw [if_pos hsigned]
    exact signedKind_ne_none _
  rw [if_neg hsigned]
  by_cases hunsigned : isUnsignedIntConv spec.conv = true
  · rw [if_pos hunsigned]
    exact unsignedKind_ne_none _
  rw [if_neg hunsigned]
  by_cases hchar : oneOf ['c', 'C'] spec.conv = true
  · rw [if_pos hchar]
    exact ArgKind.noConfusion
  rw [if_neg hchar]
  by_cases hstring : oneOf ['s'] spec.conv = true
  · rw [if_pos hstring]
    split
    · exact ArgKind.noConfusion
    · exact ArgKind.noConfusion
  rw [if_neg hstring]
  by_cases hwstring : oneOf ['S'] spec.conv = true
  · rw [if_pos hwstring]
    exact ArgKind.noConfusion
  rw [if_neg hwstring]
  have hpointer : oneOf ['p', 'n'] spec.conv = true := by
    simp only [readsValue, Bool.or_eq_true, hfloat, hsigned, hunsigned, Bool.false_eq_true, or_false] at hreads
    exact (((hclass hreads).resolve_left hchar).resolve_left hstring).resolve_left hwstring
  rw [if_pos hpointer]
  exact ArgKind.noConfusion

/-- The text of a binary conversion stays within the range of `int`. -/
def FormatSpec.BinaryFits (spec : FormatSpec) (args : List PrintArg) : Prop :=
  oneOf ['b', 'B'] spec.conv = true → ∀ arg width precision, args[spec.valuePosition]? = some arg →
    spec.width.value args = .ok width → spec.precision.value args = .ok precision →
    ¬ spec.Overlong width precision (binaryValue arg).toNat

/-- A directive that finds what it reads. -/
structure FormatSpec.Sound (spec : FormatSpec) (args : List PrintArg) : Prop where
  placed : spec.Placed args.length
  value : readsValue spec.conv = true → spec.valuePosition < args.length
  binary : spec.BinaryFits args

section

variable {host : Host} {guest : Guest}

lemma not_faults_binary (h : spec.Sound args) (hbinary : oneOf ['b', 'B'] spec.conv = true) :
    ¬ Faults (argAt args spec.valuePosition >>= fun arg => spec.formatBinary args (binaryValue arg)) := by
  have hlt := h.value (forall_oneOf (fun conv => readsValue conv = true) (by decide) hbinary)
  obtain ⟨width, hwidth⟩ := Count.value_ok h.placed.width
  obtain ⟨precision, hprecision⟩ := Count.value_ok h.placed.precision
  have hfits := h.binary hbinary _ width precision (getElem?_eq_getElem hlt) hwidth hprecision
  rw [argAt_ok hlt, ok_bind, formatBinary_ok hwidth hprecision hfits]
  exact not_faults_ok _

/-- **A directive that finds what it reads does not fault.** -/
theorem not_faults_formatDirective (h : spec.Sound args) : ¬ Faults (spec.formatDirective host guest args) := by
  have hreads (cs : List Char) (hcs : cs.Forall fun c => readsValue (ascii c) = true)
      (hconv : oneOf cs spec.conv = true) : spec.valuePosition < args.length :=
    h.value (forall_oneOf (fun conv => readsValue conv = true) hcs hconv)
  unfold formatDirective
  by_cases hn : spec.conv = ascii 'n'
  · rw [if_pos hn]
    exact not_faults_code _
  rw [if_neg hn]
  by_cases hm : spec.conv = ascii 'm'
  · rw [if_pos hm]
    exact not_faults_hostCall h.placed _ _
  rw [if_neg hm]
  by_cases hp : spec.conv = ascii 'p'
  · rw [if_pos hp]
    exact not_faults_argAt_ite h.placed (hreads ['p'] (by decide) (by rw [hp]; decide))
  rw [if_neg hp]
  by_cases hs : oneOf ['s', 'S'] spec.conv = true
  · rw [if_pos hs]
    exact not_faults_argAt_ite h.placed (hreads ['s', 'S'] (by decide) hs)
  rw [if_neg hs]
  by_cases hc : oneOf ['c', 'C'] spec.conv = true
  · rw [if_pos hc]
    exact not_faults_argAt_ite h.placed (hreads ['c', 'C'] (by decide) hc)
  rw [if_neg hc]
  by_cases hb : oneOf ['b', 'B'] spec.conv = true
  · rw [if_pos hb]
    exact not_faults_binary h hb
  rw [if_neg hb]
  by_cases hf : isFloatConv spec.conv = true
  · rw [if_pos hf]
    exact not_faults_argAt_ite h.placed (hreads ['a', 'A', 'e', 'E', 'f', 'F', 'g', 'G'] (by decide) hf)
  rw [if_neg hf]
  by_cases hi : isSignedIntConv spec.conv = true ∨ isUnsignedIntConv spec.conv = true
  · rw [if_pos hi]
    refine not_faults_formatInt h.placed (h.value ?_)
    simp only [readsValue, Bool.or_eq_true, or_assoc]
    exact .inr (.inr hi)
  rw [if_neg hi]
  exact not_faults_hostCall h.placed _ _

/-! ## Formatting -/

/-- The text of an item, which is empty if formatting stops there. -/
def FormatItem.text (host : Host) (guest : Guest) (args : List PrintArg) : FormatItem → List Byte
  | .literal text => text
  | .directive spec => (spec.formatDirective host guest args).toOption.getD []

lemma append_ok {output : List Byte} (text : List Byte) (h : (output ++ text).length ≤ host.textRoom) :
    host.append output text = .ok (output ++ text) := if_neg (Nat.not_lt.2 h)

/-- **The run over the items** does not fault if all directives find what they read and all texts find room. -/
lemma not_faults_items {items : List FormatItem} {output : List Byte}
    (h : ∀ spec, .directive spec ∈ items → spec.Sound args)
    (hroom : (output ++ items.flatMap (FormatItem.text host guest args)).length ≤ host.textRoom) :
    ¬ Faults (items.foldlM (formatItem host guest args) output) := by
  induction items generalizing output with
  | nil => exact not_faults_ok _
  | cons item items ih =>
    rw [flatMap_cons, ← append_assoc] at hroom
    have hitem : (output ++ item.text host guest args).length ≤ host.textRoom := by
      rw [length_append] at hroom
      omega
    have hrest := ih (fun spec hspec => h spec (mem_cons_of_mem _ hspec)) hroom
    rw [foldlM_cons]
    cases item with
    | literal text =>
      change ¬ Faults (host.append output text >>= _)
      rw [append_ok text hitem]
      exact hrest
    | directive spec =>
      change ¬ Faults ((spec.formatDirective host guest args >>= host.append output) >>= _)
      change (output ++ (spec.formatDirective host guest args).toOption.getD []).length ≤ _ at hitem
      change ¬ Faults (items.foldlM _ (output ++ (spec.formatDirective host guest args).toOption.getD [])) at hrest
      have hsound : ¬ Faults (spec.formatDirective host guest args) := not_faults_formatDirective (h spec mem_cons_self)
      cases htext : spec.formatDirective host guest args with
      | ok text =>
        rw [htext] at hitem hrest
        rw [ok_bind, append_ok text hitem]
        exact hrest
      | error e =>
        rw [htext] at hsound
        rintro ⟨f, hf⟩
        cases hf
        exact hsound ⟨f, rfl⟩

end

section

variable {σ : Type} {host : Host} {guest : Guest} {fmt : List Byte} {source : ArgSource σ} {s : σ}
  {argKinds : List ArgKind}

/-- What the host makes of a format. -/
def Host.parsed (host : Host) (fmt : List Byte) : ParsedFormat :=
  (parseFormatString host.kindRoom fmt).toOption.getD ⟨[], []⟩

/-- The vector of the arguments of a format. -/
def Host.argVector (host : Host) (fmt : List Byte) (source : ArgSource σ) (s : σ) : List PrintArg :=
  {} :: readArgs source s (host.parsed fmt).argKinds.tail

/-- **What it takes to format without a fault**: the positions fit, also in the two vectors; the value of a directive
whose length is misused has a place because of what is noted there or later; binary conversions stay in range; and there
is room for the text. -/
structure FormatOk (host : Host) (guest : Guest) (fmt : List Byte) (source : ArgSource σ) (s : σ) : Prop where
  one_le_argRoom : 1 ≤ host.argRoom
  positions : PositionsFit (min host.kindRoom host.argRoom) fmt
  misused : ∀ spec ∈ numberedDirectives fmt, spec.Misused →
    ∃ spec' ∈ numberedDirectives fmt, ∃ arg ∈ spec'.args, arg.2 ≠ .none ∧ spec.valuePosition ≤ arg.1
  binary : ∀ spec ∈ numberedDirectives fmt, spec.BinaryFits (host.argVector fmt source s)
  text : ((host.parsed fmt).items.flatMap (FormatItem.text host guest (host.argVector fmt source s))).length ≤
    host.textRoom

lemma length_readArgs (source : ArgSource σ) : ∀ (kinds : List ArgKind) (s : σ),
    (readArgs source s kinds).length = kinds.length
  | [], _ => rfl
  | kind :: kinds, s => by
    rw [readArgs, length_cons, length_cons, length_readArgs source kinds]

lemma length_argVector (hpos : 0 < (host.parsed fmt).argKinds.length) :
    (host.argVector fmt source s).length = (host.parsed fmt).argKinds.length := by
  rw [Host.argVector, length_cons, length_readArgs, length_tail]
  omega

/-- The value that a directive reads has its place. -/
lemma FormatOk.value (hok : FormatOk host guest fmt source s) {size : ℕ}
    (hplaced : ∀ spec ∈ numberedDirectives fmt, spec.Placed size) (hspec : spec ∈ numberedDirectives fmt)
    (hreads : readsValue spec.conv = true) : spec.valuePosition < size := by
  have htakes := takesValueArg_of_reads hreads
  by_cases hmisused : spec.Misused
  · obtain ⟨spec', hspec', arg, harg, hkind, hle⟩ := hok.misused spec hspec hmisused
    have h0 := (hplaced spec hspec).numbered.value htakes
    exact hle.trans_lt ((hplaced spec' hspec').hasPlace arg harg (by omega) hkind)
  · exact (hplaced spec hspec).value htakes (determineArgKind_ne_none hreads hmisused)

theorem not_faults_formatText (hok : FormatOk host guest fmt source s) :
    ¬ Faults (formatText host guest fmt source s) := by
  unfold formatText
  obtain ⟨e, he⟩ | ⟨parsed, hparse, hspecs, hv, hplaced⟩ :=
    parse_of_fits (le_min host.one_le_kindRoom hok.one_le_argRoom) (min_le_left ..) hok.positions
  · rw [he]
    exact not_faults_code e
  · have hparsed : host.parsed fmt = parsed := by
      rw [Host.parsed, hparse]
      rfl
    have hargs : materializeArgs host.argRoom source s parsed.argKinds = .ok (host.argVector fmt source s) := by
      rw [Host.argVector, hparsed]
      exact if_neg (Nat.not_lt.2 (hv.le_size.trans (min_le_right ..)))
    have hlen : (host.argVector fmt source s).length = parsed.argKinds.length := by
      rw [length_argVector, hparsed]
      exact hparsed.symm ▸ hv.pos
    rw [hparse, ok_bind, hargs, ok_bind]
    rw [← hlen] at hplaced
    refine not_faults_items (fun spec hspec => ?_) (by simpa only [nil_append, hparsed] using hok.text)
    have hmem : spec ∈ numberedDirectives fmt := by
      rw [← hspecs]
      exact mem_filterMap.2 ⟨_, hspec, rfl⟩
    exact ⟨hplaced spec hmem, hok.value hplaced hmem, hok.binary spec hmem⟩

/-- Formatting comes to an end, with a result or with the code of an error. -/
def Settles (r : Except Fault HleFormatResult) : Prop :=
  ∃ result, r = .ok result ∧ (result.ok = true ∧ result.error = 0 ∨ result.ok = false ∧ result.error ≠ 0)

lemma settles_of {r : Except Stop (List Byte)} (h : ¬ Faults r) : Settles (HleFormatResult.of r) := by
  match r with
  | .ok output => exact ⟨_, rfl, .inl ⟨rfl, rfl⟩⟩
  | .error (.code errno) => exact ⟨_, rfl, .inr ⟨rfl, errno.property⟩⟩
  | .error (.fault f) => exact absurd ⟨f, rfl⟩ h

end

def zeroRegs : Registers := ⟨fun _ => 0, fun _ => 0, fun _ => 0, 0⟩

end CrossShim.Stdio.Format
