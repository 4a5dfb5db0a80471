import AiBackend.Support.Program
import AiBackend.Support.PyInt
import AiBackend.Support.Python

/-!
# Splitting a URL

`urllib.parse.urlsplit` and the parts of its result.  The tables of Unicode and
the check of a literal address in brackets are parameters.
-/

namespace AiBackend.UrlParse

open Program Python

/-- What the parser looks up: lower case and compatibility forms, and the check
that an authority with brackets has a literal address in them. -/
structure Tables where
  lower : List Char → List Char
  nfkc : List Char → List Char
  checkBracketedNetloc : List Char → Except PyExc Unit
  lower_ascii : ∀ cs : List Char, (∀ c ∈ cs, c.toNat < 128) →
    lower cs = cs.map Char.toLower

/-- `text.partition(c)`; without the separator there is nothing behind it. -/
def partition (c : Char) (cs : List Char) : List Char × Option (List Char) :=
  (cs.takeWhile (· ≠ c), if c ∈ cs then some (cs.dropWhile (· ≠ c)).tail else none)

/-- `text.rpartition(c)`; without the separator there is nothing before it. -/
def rpartition (c : Char) (cs : List Char) : Option (List Char) × List Char :=
  let reversed := partition c cs.reverse
  (reversed.2.map List.reverse, reversed.1.reverse)

/-- The characters that are dropped from a URL wherever they stand. -/
def isUnsafe (c : Char) : Bool := c = '\t' || c = '\r' || c = '\n'

/-- The delimiters of an authority. -/
def isDelimiter (c : Char) : Bool := c = '/' || c = '?' || c = '#'

/-- `scheme_chars`. -/
def isSchemeChar (c : Char) : Bool := c.isAlphanum || c = '+' || c = '-' || c = '.'

/-- The scheme and the rest of a URL. -/
def splitScheme (url : List Char) : List Char × List Char :=
  let scheme := (partition ':' url).1
  match (partition ':' url).2 with
  | some rest =>
      if scheme.head?.any Char.isAlpha ∧ scheme.all isSchemeChar = true then
        (scheme.map Char.toLower, rest)
      else ([], url)
  | none => ([], url)

/-- Brackets in an authority come in pairs around a literal address. -/
def checkBrackets (tables : Tables) (netloc : List Char) : Except PyExc Unit :=
  if '[' ∈ netloc ∧ ']' ∉ netloc ∨ ']' ∈ netloc ∧ '[' ∉ netloc then
    .error (.valueError "Invalid IPv6 URL")
  else if '[' ∈ netloc then tables.checkBracketedNetloc netloc
  else .ok ()

/-- `_checknetloc`: no delimiter hides behind a compatibility form. -/
def checkNetloc (tables : Tables) (netloc : List Char) : Except PyExc Unit :=
  let plain := netloc.filter fun c => c ≠ '@' ∧ c ≠ ':' ∧ c ≠ '#' ∧ c ≠ '?'
  if netloc.all (fun c => c.toNat < 128) = true ∨ plain = tables.nfkc plain then .ok ()
  else if (tables.nfkc plain).any fun c => isDelimiter c || c = '@' || c = ':' then
    .error (.valueError ("netloc '" ++ String.ofList netloc ++
      "' contains invalid characters under NFKC normalization"))
  else .ok ()

/-- The parser accepts the authority. -/
structure Accepts (tables : Tables) (netloc : List Char) : Prop where
  brackets : checkBrackets tables netloc = .ok ()
  compatible : checkNetloc tables netloc = .ok ()

structure SplitResult where
  scheme : List Char
  netloc : List Char
  path : List Char
  query : List Char
  fragment : List Char

/-- The authority behind two slashes, and what follows it. -/
def splitNetloc (url : List Char) : List Char × List Char :=
  if url.take 2 = ['/', '/'] then
    ((url.drop 2).takeWhile (!isDelimiter ·), (url.drop 2).dropWhile (!isDelimiter ·))
  else ([], url)

/-- The result for a scheme, an authority and what follows them. -/
def splitRest (tables : Tables) (scheme netloc rest : List Char) :
    Except PyExc SplitResult := do
  checkBrackets tables netloc
  let (rest, fragment) := partition '#' rest
  let (path, query) := partition '?' rest
  checkNetloc tables netloc
  .ok ⟨scheme, netloc, path, query.getD [], fragment.getD []⟩

/-- `urlsplit(url)`. -/
def urlsplit (tables : Tables) (url : List Char) : Except PyExc SplitResult :=
  let url := (url.dropWhile fun c => c.toNat ≤ 32).filter (!isUnsafe ·)
  let (scheme, url) := splitScheme url
  let (netloc, url) := splitNetloc url
  splitRest tables scheme netloc url

namespace SplitResult

/-- `password`, which is what stands behind the first colon of the user
information. -/
def password (parsed : SplitResult) : Option (List Char) :=
  (rpartition '@' parsed.netloc).1.bind fun userinfo => (partition ':' userinfo).2

/-- `_hostinfo`. -/
def hostinfo (parsed : SplitResult) : List Char × List Char :=
  let info := (rpartition '@' parsed.netloc).2
  match (partition '[' info).2 with
  | some bracketed =>
      let rest := (partition ']' bracketed).2.getD []
      ((partition ']' bracketed).1, (partition ':' rest).2.getD [])
  | none => ((partition ':' info).1, (partition ':' info).2.getD [])

/-- `hostname`: lower case up to the zone of a scoped address. -/
def hostname (tables : Tables) (parsed : SplitResult) : Option (List Char) :=
  let name := parsed.hostinfo.1
  if name.isEmpty then none
  else some (tables.lower (partition '%' name).1 ++ name.dropWhile (· ≠ '%'))

/-- `port`. -/
def port (parsed : SplitResult) : Except PyExc (Option ℤ) :=
  let text := parsed.hostinfo.2
  if text.isEmpty then .ok none
  else if text.all Char.isDigit then
    match PyInt.ofText text with
    | some n =>
        if 0 ≤ n ∧ n ≤ 65535 then .ok (some n)
        else .error (.valueError "Port out of range 0-65535")
    | none => .error (.valueError
        ("Exceeds the limit (4300 digits) for integer string conversion: value has " ++
          toString text.length ++
            " digits; use sys.set_int_max_str_digits() to increase the limit"))
  else .error (.valueError
    ("Port could not be cast to integer value as '" ++ String.ofList text ++ "'"))

end SplitResult

/-! ## Separators -/

section Separators

variable {c : Char} {before after cs : List Char}

theorem partition_append (h : c ∉ before) :
    partition c (before ++ c :: after) = (before, some after) := by
  have hne : ∀ d ∈ before, decide (d ≠ c) = true := by
    intro d hd
    exact decide_eq_true fun hdc => h (hdc ▸ hd)
  rw [partition, List.takeWhile_append_of_pos hne, List.dropWhile_append_of_pos hne]
  simp

theorem partition_of_not_mem (h : c ∉ cs) : partition c cs = (cs, none) := by
  have hne : ∀ d ∈ cs, decide (d ≠ c) = true := by
    intro d hd
    exact decide_eq_true fun hdc => h (hdc ▸ hd)
  rw [partition, List.takeWhile_eq_self_iff.mpr hne, if_neg h]

theorem rpartition_append (h : c ∉ after) :
    rpartition c (before ++ c :: after) = (some before, after) := by
  have hreverse : (before ++ c :: after).reverse =
      after.reverse ++ c :: before.reverse := by
    simp
  rw [rpartition, hreverse, partition_append (by simpa using h)]
  simp

theorem rpartition_of_not_mem (h : c ∉ cs) : rpartition c cs = (none, cs) := by
  rw [rpartition, partition_of_not_mem (by simpa using h)]
  simp

theorem length_of_partition (h : (partition c cs).2 = some after) :
    after.length < cs.length := by
  by_cases hmem : c ∈ cs
  · obtain ⟨front, back, rfl, hfront⟩ := List.eq_append_cons_of_mem hmem
    rw [partition_append hfront] at h
    cases h
    simp only [List.length_append, List.length_cons]
    omega
  · rw [partition_of_not_mem hmem] at h
    cases h

theorem length_of_rpartition (h : (rpartition c cs).1 = some before) :
    before.length < cs.length := by
  obtain ⟨reversed, hreversed, rfl⟩ := Option.map_eq_some_iff.mp h
  have hlt := length_of_partition hreversed
  rw [List.length_reverse] at hlt
  rw [List.length_reverse]
  exact hlt

end Separators

/-! ## A URL with an authority -/

section Authority

variable {tables : Tables}

theorem splitRest_ok_iff {scheme netloc rest : List Char} {parsed : SplitResult} :
    splitRest tables scheme netloc rest = .ok parsed ↔
      Accepts tables netloc ∧
        parsed = ⟨scheme, netloc, (partition '?' (partition '#' rest).1).1,
          (partition '?' (partition '#' rest).1).2.getD [],
          (partition '#' rest).2.getD []⟩ := by
  simp only [splitRest, except_bind_eq_ok_iff]
  constructor
  · intro h
    obtain ⟨_, hbrackets, _, hcompatible, h⟩ := h
    cases h
    exact ⟨⟨hbrackets, hcompatible⟩, rfl⟩
  · intro h
    obtain ⟨⟨hbrackets, hcompatible⟩, rfl⟩ := h
    exact ⟨_, hbrackets, _, hcompatible, rfl⟩

/-- The parser finds the scheme and the authority of a URL that has both. -/
theorem urlsplit_authority {scheme rest : List Char}
    (hstart : scheme.head?.any Char.isAlpha = true)
    (hscheme : scheme.all isSchemeChar = true) :
    urlsplit tables (scheme ++ ':' :: '/' :: '/' :: rest) =
      splitRest tables (scheme.map Char.toLower)
        ((rest.filter (!isUnsafe ·)).takeWhile (!isDelimiter ·))
        ((rest.filter (!isUnsafe ·)).dropWhile (!isDelimiter ·)) := by
  have hkeep : ∀ c ∈ scheme, isUnsafe c = false ∧ c ≠ ':' := by
    intro c hc
    have hchar := List.all_eq_true.mp hscheme c hc
    have hne : ∀ d : Char, isSchemeChar d = false → c ≠ d := by
      intro d hd hcd
      rw [hcd, hd] at hchar
      cases hchar
    exact ⟨by simp [isUnsafe, hne '\t' rfl, hne '\r' rfl, hne '\n' rfl], hne ':' rfl⟩
  obtain ⟨c, cs, rfl⟩ : ∃ c cs, scheme = c :: cs := by
    cases scheme with
    | nil => cases hstart
    | cons c cs => exact ⟨c, cs, rfl⟩
  have hletter : ¬ c.toNat ≤ 32 := by
    have halpha : c.isAlpha = true := hstart
    delta Char.isAlpha Char.isUpper Char.isLower at halpha
    simp only [Bool.or_eq_true, decide_eq_true_eq, ge_iff_le, Bool.and_eq_true,
      UInt32.le_iff_toNat_le] at halpha
    have hupper : 'A'.val.toNat = 65 := rfl
    have hlower : 'a'.val.toNat = 97 := rfl
    have hcode : c.toNat = c.val.toNat := rfl
    omega
  have hfilter : (c :: cs).filter (!isUnsafe ·) = c :: cs :=
    List.filter_eq_self.mpr fun d hd => by simp [(hkeep d hd).1]
  have hcolon : ':' ∉ c :: cs := fun hmem => (hkeep ':' hmem).2 rfl
  have hclean : ((c :: cs ++ ':' :: '/' :: '/' :: rest).dropWhile
        fun c => c.toNat ≤ 32).filter (!isUnsafe ·) =
      c :: cs ++ ':' :: '/' :: '/' :: rest.filter (!isUnsafe ·) := by
    rw [List.cons_append, List.dropWhile_cons_of_neg (by simpa using hletter),
      ← List.cons_append, List.filter_append, hfilter]
    rfl
  have hsplit : splitScheme (c :: cs ++ ':' :: '/' :: '/' :: rest.filter (!isUnsafe ·)) =
      ((c :: cs).map Char.toLower, '/' :: '/' :: rest.filter (!isUnsafe ·)) := by
    rw [splitScheme, partition_append hcolon]
    exact if_pos ⟨hstart, hscheme⟩
  rw [urlsplit, hclean]
  simp only [hsplit]
  rfl

/-- An authority of ASCII characters other than brackets is accepted. -/
theorem accepts_of_ascii {netloc : List Char} (hascii : ∀ c ∈ netloc, c.toNat < 128)
    (hopen : '[' ∉ netloc) (hclose : ']' ∉ netloc) : Accepts tables netloc where
  brackets := by simp [checkBrackets, hopen, hclose]
  compatible := by
    have hall : netloc.all (fun c => c.toNat < 128) = true := by
      simpa [List.all_eq_true] using hascii
    rw [checkNetloc, if_pos (Or.inl hall)]

end Authority
end AiBackend.UrlParse
