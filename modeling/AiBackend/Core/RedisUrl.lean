import AiBackend.Core.Settings

/-!
# One Redis for the API and the worker

The API connects to what is read out of the URL, the worker to what the
settings say.  The two agree unless the password, which the URL holds as it
is, has characters that mean something in a URL.
-/

namespace AiBackend
namespace RedisSettings

open Program Python UrlParse

/-! ## Host names -/

def isHostChar (c : Char) : Bool := c.isAlphanum || c = '-' || c = '.' || c = '_'

/-- A host name: letters, digits, hyphens, dots and underscores. -/
structure IsHostName (host : List Char) : Prop where
  ne_nil : host ≠ []
  chars : ∀ c ∈ host, isHostChar c = true

/-- The characters of a host name, a colon and a port. -/
def isHostportChar (c : Char) : Bool := isHostChar c || c = ':'

theorem ne_of_isHostportChar {c : Char} (h : isHostportChar c = true) {d : Char}
    (hd : isHostportChar d = false) : c ≠ d := by
  intro hcd
  rw [hcd, hd] at h
  cases h

theorem toNat_lt_of_isAlphanum {c : Char} (h : c.isAlphanum = true) :
    c.toNat < 128 := by
  delta Char.isAlphanum Char.isAlpha Char.isUpper Char.isLower Char.isDigit at h
  simp only [Bool.or_eq_true, Bool.and_eq_true, decide_eq_true_eq, UInt32.le_iff_toNat_le,
    ge_iff_le] at h
  have hcode : c.toNat = c.val.toNat := rfl
  have hupper : 'Z'.val.toNat = 90 := rfl
  have hlower : 'z'.val.toNat = 122 := rfl
  have hdigit : '9'.val.toNat = 57 := rfl
  omega

theorem toNat_lt_of_isHostportChar {c : Char} (h : isHostportChar c = true) :
    c.toNat < 128 := by
  simp only [isHostportChar, isHostChar, Bool.or_eq_true, decide_eq_true_eq] at h
  rcases h with (((h | rfl) | rfl) | rfl) | rfl
  · exact toNat_lt_of_isAlphanum h
  all_goals decide

theorem isHostportChar_of_isIntegerChar {c : Char}
    (h : PyInt.isIntegerChar c = true) : isHostportChar c = true := by
  simp only [PyInt.isIntegerChar, Bool.or_eq_true, decide_eq_true_eq] at h
  rcases h with rfl | h
  · rfl
  · have halphanum : c.isAlphanum = true := Bool.or_eq_true_iff.mpr (Or.inr h)
    simp [isHostportChar, isHostChar, halphanum]

/-- What stands behind the user information of the URL. -/
def hostport (settings : RedisSettings) : List Char :=
  settings.host.toList ++ ':' :: JsonText.integerText settings.port

section Hostport

variable {settings : RedisSettings} (hhost : IsHostName settings.host.toList)

include hhost

theorem isHostportChar_of_mem {c : Char} (h : c ∈ settings.hostport) :
    isHostportChar c = true := by
  rcases List.mem_append.mp h with h | h
  · simp [isHostportChar, hhost.chars c h]
  · rcases List.mem_cons.mp h with rfl | h
    · rfl
    · exact isHostportChar_of_isIntegerChar (PyInt.isIntegerChar_of_mem h)

theorem not_mem_hostport {d : Char} (hd : isHostportChar d = false) :
    d ∉ settings.hostport := fun hmem =>
  ne_of_isHostportChar (isHostportChar_of_mem hhost hmem) hd rfl

theorem not_mem_host {d : Char} (hd : isHostChar d = false) :
    d ∉ settings.host.toList := by
  intro hmem
  have h := hhost.chars d hmem
  rw [hd] at h
  cases h

end Hostport

/-! ## The authority -/

/-- The authority of the URL of these settings. -/
def authority (settings : RedisSettings) : List Char :=
  match settings.secret with
  | some password => ':' :: (password.toList ++ '@' :: settings.hostport)
  | none => settings.hostport

section Parsed

variable {settings : RedisSettings} {tables : Tables} {parsed : SplitResult}

/-- The host and the port that the URL is read back with. -/
theorem hostinfo_of_netloc (hhost : IsHostName settings.host.toList)
    (hnetloc : (rpartition '@' parsed.netloc).2 = settings.hostport) :
    parsed.hostinfo =
      (settings.host.toList, JsonText.integerText settings.port) := by
  have hopen : '[' ∉ settings.hostport := not_mem_hostport hhost rfl
  have hcolon : ':' ∉ settings.host.toList := not_mem_host hhost rfl
  simp only [SplitResult.hostinfo, hnetloc, partition_of_not_mem hopen]
  rw [hostport, partition_append hcolon]
  rfl

theorem hostname_of_hostinfo (hhost : IsHostName settings.host.toList)
    (hinfo : parsed.hostinfo =
      (settings.host.toList, JsonText.integerText settings.port)) :
    parsed.hostname tables = some (settings.host.toList.map Char.toLower) := by
  have hpercent : '%' ∉ settings.host.toList := not_mem_host hhost rfl
  have hdrop : settings.host.toList.dropWhile (· ≠ '%') = [] := by
    rw [List.dropWhile_eq_nil_iff]
    intro c hc
    exact decide_eq_true fun hcp => hpercent (hcp ▸ hc)
  have hascii : ∀ c ∈ settings.host.toList, c.toNat < 128 := fun c hc =>
    toNat_lt_of_isHostportChar (by simp [isHostportChar, hhost.chars c hc])
  have hne : ¬ settings.host.toList.isEmpty = true := by
    simpa using hhost.ne_nil
  simp only [SplitResult.hostname, hinfo, if_neg hne, partition_of_not_mem hpercent,
    hdrop, List.append_nil, tables.lower_ascii _ hascii]

theorem port_of_hostinfo
    (hinfo : parsed.hostinfo =
      (settings.host.toList, JsonText.integerText settings.port))
    (hfits : (Nat.toDigits 10 settings.port.natAbs).length ≤ JsonText.maxStrDigits) :
    parsed.port = .ok (some settings.port) ↔
      0 ≤ settings.port ∧ settings.port ≤ 65535 := by
  have hne : ¬ (JsonText.integerText settings.port).isEmpty = true := by
    unfold JsonText.integerText
    split <;> simp [Nat.toDigits_ne_nil]
  by_cases hneg : settings.port < 0
  · have hdigits : ¬ (JsonText.integerText settings.port).all Char.isDigit = true := by
      rw [JsonText.integerText, if_pos hneg]
      simp
    refine iff_of_false ?_ (by omega)
    simp only [SplitResult.port, hinfo, if_neg hne, if_neg hdigits]
    intro h
    cases h
  · have hdigits : (JsonText.integerText settings.port).all Char.isDigit = true := by
      rw [JsonText.integerText, if_neg hneg, List.all_eq_true]
      exact fun c hc => Nat.isDigit_of_mem_toDigits (by decide) (by decide) hc
    simp only [SplitResult.port, hinfo, if_neg hne, if_pos hdigits,
      PyInt.ofText_integerText hfits]
    split
    next hrange => exact iff_of_true rfl hrange
    next hrange => exact iff_of_false (fun h => by cases h) hrange

/-- The password is read back as it stands in the authority. -/
theorem password_of_netloc (hhost : IsHostName settings.host.toList)
    {password : List Char}
    (hnetloc : parsed.netloc = ':' :: (password ++ '@' :: settings.hostport)) :
    parsed.password = some password := by
  have hat : '@' ∉ settings.hostport := not_mem_hostport hhost rfl
  have hsplit : rpartition '@' parsed.netloc = (some (':' :: password),
      settings.hostport) := by
    rw [hnetloc, ← List.cons_append, rpartition_append hat]
  have hcolon : partition ':' (':' :: password) = ([], some password) :=
    partition_append List.not_mem_nil
  rw [SplitResult.password, hsplit]
  exact congrArg Prod.snd hcolon

theorem password_none_of_netloc (hhost : IsHostName settings.host.toList)
    (hnetloc : parsed.netloc = settings.hostport) : parsed.password = none := by
  have hat : '@' ∉ settings.hostport := not_mem_hostport hhost rfl
  rw [SplitResult.password, hnetloc, rpartition_of_not_mem hat]
  rfl

theorem hostport_of_authority (hhost : IsHostName settings.host.toList)
    (hnetloc : parsed.netloc = settings.authority) :
    (rpartition '@' parsed.netloc).2 = settings.hostport := by
  have hat : '@' ∉ settings.hostport := not_mem_hostport hhost rfl
  rw [hnetloc]
  cases hsecret : settings.secret with
  | none => simp only [authority, hsecret, rpartition_of_not_mem hat]
  | some password =>
      simp only [authority, hsecret]
      rw [← List.cons_append, rpartition_append hat]

end Parsed

/-! ## The URL -/

/-- No character of the password is dropped from a URL or ends an authority. -/
def PlainSecret (settings : RedisSettings) : Prop :=
  ∀ password, settings.secret = some password →
    ∀ c ∈ password.toList, isUnsafe c = false ∧ isDelimiter c = false

/-- What follows the scheme and two slashes. -/
def urlRest (settings : RedisSettings) : List Char :=
  settings.authority ++ '/' :: JsonText.integerText settings.db

/-- The numbers of the settings can be written. -/
structure Fits (settings : RedisSettings) : Prop where
  port : (Nat.toDigits 10 settings.port.natAbs).length ≤ JsonText.maxStrDigits
  db : (Nat.toDigits 10 settings.db.natAbs).length ≤ JsonText.maxStrDigits

theorem fits_of_url {settings : RedisSettings} {text : String}
    (h : settings.url = .ok text) : settings.Fits := by
  obtain ⟨port, hport, h⟩ := except_bind_eq_ok_iff.mp h
  obtain ⟨db, hdb, _⟩ := except_bind_eq_ok_iff.mp h
  constructor
  · by_contra hlong
    rw [PyInt.str, if_neg hlong] at hport
    cases hport
  · by_contra hlong
    rw [PyInt.str, if_neg hlong] at hdb
    cases hdb

theorem url_of_fits {settings : RedisSettings} (h : settings.Fits) :
    settings.url = .ok (String.ofList
      (['r', 'e', 'd', 'i', 's'] ++ ':' :: '/' :: '/' :: settings.urlRest)) := by
  have hscheme : "redis://".toList =
      ['r', 'e', 'd', 'i', 's', ':', '/', '/'] := by
    decide +kernel
  have hopen : "redis://:".toList =
      ['r', 'e', 'd', 'i', 's', ':', '/', '/', ':'] := by
    decide +kernel
  have hcolon : ":".toList = [':'] := by decide +kernel
  have hslash : "/".toList = ['/'] := by decide +kernel
  have hat : "@".toList = ['@'] := by decide +kernel
  simp only [url, PyInt.str, if_pos h.port, if_pos h.db]
  cases hsecret : settings.secret with
  | none =>
      refine congrArg Except.ok (String.toList_inj.mp ?_)
      simp only [String.toList_append, String.toList_ofList, hscheme, hcolon, hslash,
        urlRest, authority, hsecret, hostport]
      simp
  | some password =>
      refine congrArg Except.ok (String.toList_inj.mp ?_)
      simp only [String.toList_append, String.toList_ofList, hopen, hcolon, hslash, hat,
        urlRest, authority, hsecret, hostport]
      simp

section Url

variable {settings : RedisSettings} (hhost : IsHostName settings.host.toList)

include hhost

theorem plain_hostport :
    ∀ c ∈ settings.hostport, isUnsafe c = false ∧ isDelimiter c = false := by
  intro c hc
  have hne : ∀ d : Char, isHostportChar d = false → c ≠ d := fun d hd =>
    ne_of_isHostportChar (isHostportChar_of_mem hhost hc) hd
  simp [isUnsafe, isDelimiter, hne '\t' rfl, hne '\r' rfl, hne '\n' rfl, hne '/' rfl,
    hne '?' rfl, hne '#' rfl]

theorem plain_authority (hplain : settings.PlainSecret) :
    ∀ c ∈ settings.authority, isUnsafe c = false ∧ isDelimiter c = false := by
  intro c hc
  cases hsecret : settings.secret with
  | none =>
      simp only [authority, hsecret] at hc
      exact plain_hostport hhost c hc
  | some password =>
      simp only [authority, hsecret, List.mem_cons, List.mem_append] at hc
      rcases hc with rfl | hc | rfl | hc
      · exact ⟨rfl, rfl⟩
      · exact hplain password hsecret c hc
      · exact ⟨rfl, rfl⟩
      · exact plain_hostport hhost c hc

end Url

/-- A front without delimiters is the authority. -/
theorem split_front {front rest : List Char}
    (hfront : ∀ c ∈ front, isDelimiter c = false) :
    (front ++ '/' :: rest).takeWhile (!isDelimiter ·) = front ∧
      (front ++ '/' :: rest).dropWhile (!isDelimiter ·) = '/' :: rest := by
  have hall : ∀ c ∈ front, (!isDelimiter c) = true := by
    intro c hc
    rw [hfront c hc]
    rfl
  rw [List.takeWhile_append_of_pos hall, List.dropWhile_append_of_pos hall]
  have hslash : (!isDelimiter '/') = false := rfl
  simp [hslash]

theorem filter_path (db : ℤ) :
    ('/' :: JsonText.integerText db).filter (!isUnsafe ·) =
      '/' :: JsonText.integerText db := by
  rw [List.filter_eq_self]
  intro c hc
  rcases List.mem_cons.mp hc with rfl | hc
  · rfl
  · have hchar := PyInt.isIntegerChar_of_mem hc
    simp [isUnsafe, PyInt.ne_of_isIntegerChar hchar (d := '\t') rfl,
      PyInt.ne_of_isIntegerChar hchar (d := '\r') rfl,
      PyInt.ne_of_isIntegerChar hchar (d := '\n') rfl]

/-- What the parser takes for the authority of the URL. -/
def netloc (settings : RedisSettings) : List Char :=
  (settings.urlRest.filter (!isUnsafe ·)).takeWhile (!isDelimiter ·)

section Netloc

variable {settings : RedisSettings} (hhost : IsHostName settings.host.toList)

include hhost

theorem split_of_plain (hplain : settings.PlainSecret) :
    settings.netloc = settings.authority ∧
      (settings.urlRest.filter (!isUnsafe ·)).dropWhile (!isDelimiter ·) =
        '/' :: JsonText.integerText settings.db := by
  have hauthority := plain_authority hhost hplain
  have hfilter : settings.authority.filter (!isUnsafe ·) = settings.authority :=
    List.filter_eq_self.mpr fun c hc => by simp [(hauthority c hc).1]
  rw [netloc, urlRest, List.filter_append, hfilter, filter_path]
  exact split_front fun c hc => (hauthority c hc).2

/-- A password that comes back from the parser had nothing that the parser
drops or ends the authority at. -/
theorem plain_of_password {parsed : SplitResult}
    (hnetloc : parsed.netloc = settings.netloc) {password : String}
    (hsecret : settings.secret = some password)
    (hread : parsed.password = some password.toList) :
    ∀ c ∈ password.toList, isUnsafe c = false ∧ isDelimiter c = false := by
  let kept := password.toList.filter (!isUnsafe ·)
  have hhostport : settings.hostport.filter (!isUnsafe ·) = settings.hostport :=
    List.filter_eq_self.mpr fun c hc => by simp [(plain_hostport hhost c hc).1]
  have hrest : settings.urlRest.filter (!isUnsafe ·) =
      ':' :: (kept ++ '@' :: settings.hostport) ++
        '/' :: JsonText.integerText settings.db := by
    rw [urlRest, List.filter_append, filter_path]
    simp only [authority, hsecret]
    rw [List.filter_cons_of_pos rfl, List.filter_append, List.filter_cons_of_pos rfl,
      hhostport]
  by_cases hdelimiter : ∃ c ∈ password.toList, isDelimiter c = true
  · -- what stands before the delimiter is too short for the password
    obtain ⟨c, hc, hdelimiter⟩ := hdelimiter
    have hkept : c ∈ kept := by
      refine List.mem_filter.mpr ⟨hc, ?_⟩
      simp only [isDelimiter, Bool.or_eq_true, decide_eq_true_eq] at hdelimiter
      rcases hdelimiter with (rfl | rfl) | rfl <;> rfl
    have hstop : (kept.takeWhile (!isDelimiter ·)).length < kept.length := by
      refine lt_of_le_of_ne (List.takeWhile_prefix _).length_le fun hlength => ?_
      have hwhole := (List.takeWhile_prefix (!isDelimiter ·)).eq_of_length hlength
      have hall := List.takeWhile_eq_self_iff.mp hwhole c hkept
      simp [hdelimiter] at hall
    have hshort : settings.netloc = ':' :: kept.takeWhile (!isDelimiter ·) := by
      rw [netloc, hrest, List.cons_append, List.takeWhile_cons_of_pos rfl,
        List.append_assoc, List.takeWhile_append, if_neg hstop.ne]
    obtain ⟨userinfo, huserinfo, hbehind⟩ := Option.bind_eq_some_iff.mp hread
    have huser := length_of_rpartition huserinfo
    have hpassword := length_of_partition hbehind
    have hkeptLength : kept.length ≤ password.toList.length := List.length_filter_le _ _
    rw [hnetloc, hshort, List.length_cons] at huser
    omega
  · simp only [not_exists, not_and, Bool.not_eq_true] at hdelimiter
    have hfront : ∀ c ∈ ':' :: (kept ++ '@' :: settings.hostport),
        isDelimiter c = false := by
      intro c hc
      simp only [List.mem_cons, List.mem_append] at hc
      rcases hc with rfl | hc | rfl | hc
      · rfl
      · exact hdelimiter c (List.mem_of_mem_filter hc)
      · rfl
      · exact (plain_hostport hhost c hc).2
    have hwhole : parsed.netloc = ':' :: (kept ++ '@' :: settings.hostport) := by
      rw [hnetloc, netloc, hrest]
      exact (split_front hfront).1
    rw [password_of_netloc hhost hwhole] at hread
    intro c hc
    have hsafe := List.filter_eq_self.mp (Option.some_inj.mp hread) c hc
    exact ⟨by simpa using hsafe, hdelimiter c hc⟩

end Netloc

/-! ## Agreement -/

/-- What the API reads out of the URL is what the worker is given. -/
def SameRedis (tables : Tables) (settings : RedisSettings) : Prop :=
  (settings.url >>= RedisConnection.ofUrl tables) =
    .ok (ArqWorkerSettings.redisSettings settings)

/-- The settings that a URL can carry: a host in lower case, a port in range, a
database that can be written, a password without characters that the parser
drops or ends the authority at, and an authority that the parser accepts. -/
structure Carried (tables : Tables) (settings : RedisSettings) : Prop where
  host : settings.host.toList.map Char.toLower = settings.host.toList
  port : 0 ≤ settings.port ∧ settings.port ≤ 65535
  db : (Nat.toDigits 10 settings.db.natAbs).length ≤ JsonText.maxStrDigits
  password : settings.PlainSecret
  authority : Accepts tables settings.authority

section Agreement

variable {tables : Tables} {settings : RedisSettings}

theorem fits_of_carried (h : Carried tables settings) : settings.Fits where
  port := by
    have hlow := h.port.1
    have hhigh := h.port.2
    have hbound : settings.port.natAbs < 10 ^ 5 := by omega
    have hlength := (Nat.length_toDigits_le_iff (b := 10) (by norm_num)
      (by norm_num : 0 < 5)).mpr hbound
    exact hlength.trans (by decide)
  db := h.db

/-- How the URL is split. -/
theorem urlsplit_url (settings : RedisSettings) :
    urlsplit tables (String.ofList (['r', 'e', 'd', 'i', 's'] ++ ':' :: '/' :: '/' ::
        settings.urlRest)).toList =
      splitRest tables ['r', 'e', 'd', 'i', 's'] settings.netloc
        ((settings.urlRest.filter (!isUnsafe ·)).dropWhile (!isDelimiter ·)) := by
  rw [String.toList_ofList, urlsplit_authority rfl (by decide)]
  rfl

theorem partition_path (db : ℤ) {c : Char} (hc : c = '#' ∨ c = '?') :
    partition c ('/' :: JsonText.integerText db) = ('/' :: JsonText.integerText db, none) := by
  apply partition_of_not_mem
  intro hmem
  rcases List.mem_cons.mp hmem with hslash | hmem
  · rcases hc with rfl | rfl <;> cases hslash
  · have hchar := PyInt.isIntegerChar_of_mem hmem
    rcases hc with rfl | rfl <;> cases hchar

theorem readDatabase_path {db : ℤ}
    (h : (Nat.toDigits 10 db.natAbs).length ≤ JsonText.maxStrDigits) :
    RedisConnection.readDatabase ('/' :: JsonText.integerText db) = .ok db := by
  have hdrop : ('/' :: JsonText.integerText db).dropWhile (· = '/') =
      JsonText.integerText db := by
    rw [List.dropWhile_cons_of_pos (by decide), List.dropWhile_eq_self_iff]
    intro hlength
    have hchar := PyInt.isIntegerChar_of_mem (List.getElem_mem hlength)
    simpa using PyInt.ne_of_isIntegerChar hchar (d := '/') rfl
  simp only [RedisConnection.readDatabase, hdrop, PyInt.ofText_integerText h]
  rfl

theorem carried_of_sameRedis (hhost : IsHostName settings.host.toList)
    (h : SameRedis tables settings) : Carried tables settings := by
  obtain ⟨text, hurl, h⟩ := except_bind_eq_ok_iff.mp h
  have hfits := fits_of_url hurl
  rw [url_of_fits hfits] at hurl
  cases hurl
  obtain ⟨parsed, hsplit, hport, _, hname, hpassword⟩ :=
    RedisConnection.ofUrl_ok_iff.mp h
  rw [urlsplit_url, splitRest_ok_iff] at hsplit
  obtain ⟨haccepts, hparsed⟩ := hsplit
  have hnetloc : parsed.netloc = settings.netloc := by rw [hparsed]
  have hplain : settings.PlainSecret := by
    intro password hsecret
    have hmap : parsed.password.map String.ofList = some password := by
      rw [hpassword, ← hsecret]
      rfl
    obtain ⟨characters, hread, rfl⟩ := Option.map_eq_some_iff.mp hmap
    refine plain_of_password hhost hnetloc hsecret ?_
    rw [hread, String.toList_ofList]
  obtain ⟨hauthority, _⟩ := split_of_plain hhost hplain
  rw [hauthority] at haccepts hnetloc
  have hinfo := hostinfo_of_netloc hhost (hostport_of_authority hhost hnetloc)
  rw [hostname_of_hostinfo hhost hinfo] at hname
  have hlower : String.ofList (settings.host.toList.map Char.toLower) =
      settings.host := Option.some_inj.mp hname
  refine ⟨?_, (port_of_hostinfo hinfo hfits.port).mp hport, hfits.db, hplain, haccepts⟩
  rw [← String.toList_ofList (l := settings.host.toList.map Char.toLower), hlower]

theorem sameRedis_of_carried (hhost : IsHostName settings.host.toList)
    (h : Carried tables settings) : SameRedis tables settings := by
  have hfits := fits_of_carried h
  obtain ⟨hauthority, hrest⟩ := split_of_plain hhost h.password
  refine except_bind_eq_ok_iff.mpr ⟨_, url_of_fits hfits, ?_⟩
  let parsed : SplitResult :=
    ⟨['r', 'e', 'd', 'i', 's'], settings.authority,
      '/' :: JsonText.integerText settings.db, [], []⟩
  have hinfo : parsed.hostinfo =
      (settings.host.toList, JsonText.integerText settings.port) :=
    hostinfo_of_netloc hhost (hostport_of_authority hhost rfl)
  refine RedisConnection.ofUrl_ok_iff.mpr ⟨parsed, ?_,
    (port_of_hostinfo hinfo hfits.port).mpr h.port, readDatabase_path h.db, ?_, ?_⟩
  · rw [urlsplit_url, splitRest_ok_iff, hauthority, hrest,
      partition_path _ (Or.inl rfl), partition_path _ (Or.inr rfl)]
    exact ⟨h.authority, rfl⟩
  · rw [hostname_of_hostinfo hhost hinfo, h.host, Option.map_some, String.ofList_toList]
    rfl
  · cases hsecret : settings.secret with
    | none =>
        have hnetloc : parsed.netloc = settings.hostport := by
          simp only [parsed, authority, hsecret]
        rw [password_none_of_netloc hhost hnetloc]
        exact hsecret.symm
    | some password =>
        have hnetloc : parsed.netloc =
            ':' :: (password.toList ++ '@' :: settings.hostport) := by
          simp only [parsed, authority, hsecret]
        rw [password_of_netloc hhost hnetloc, Option.map_some, String.ofList_toList]
        exact hsecret.symm

/-- The settings agree with the URL exactly if the URL can carry them. -/
theorem sameRedis_iff_carried (hhost : IsHostName settings.host.toList) :
    SameRedis tables settings ↔ Carried tables settings :=
  ⟨carried_of_sameRedis hhost, sameRedis_of_carried hhost⟩

/-- An ASCII password without brackets, slashes, question marks, number signs,
tabs and line breaks is one that the URL carries. -/
theorem accepts_of_plain (hhost : IsHostName settings.host.toList)
    (hsecret : ∀ password, settings.secret = some password →
      ∀ c ∈ password.toList, c.toNat < 128 ∧ c ≠ '[' ∧ c ≠ ']') :
    Accepts tables settings.authority := by
  have hall : ∀ c ∈ settings.authority, c.toNat < 128 ∧ c ≠ '[' ∧ c ≠ ']' := by
    have hhostport : ∀ c ∈ settings.hostport, c.toNat < 128 ∧ c ≠ '[' ∧ c ≠ ']' := by
      intro c hc
      have hchar := isHostportChar_of_mem hhost hc
      exact ⟨toNat_lt_of_isHostportChar hchar, ne_of_isHostportChar hchar rfl,
        ne_of_isHostportChar hchar rfl⟩
    intro c hc
    cases hcase : settings.secret with
    | none =>
        simp only [authority, hcase] at hc
        exact hhostport c hc
    | some password =>
        simp only [authority, hcase, List.mem_cons, List.mem_append] at hc
        rcases hc with rfl | hc | rfl | hc
        · decide
        · exact hsecret password hcase c hc
        · decide
        · exact hhostport c hc
  exact accepts_of_ascii (fun c hc => (hall c hc).1) (fun hmem => (hall _ hmem).2.1 rfl)
    (fun hmem => (hall _ hmem).2.2 rfl)

end Agreement

/-- Tables that are right for ASCII texts without brackets. -/
def asciiTables : Tables where
  lower := fun cs => cs.map Char.toLower
  nfkc := id
  checkBracketedNetloc := fun _ => .error (.valueError "not a literal address")
  lower_ascii := fun _ _ => rfl

def slashSettings : RedisSettings where
  password := some "a/b"

theorem isHostName_localhost : IsHostName slashSettings.host.toList := by
  have hhost : slashSettings.host.toList =
      ['l', 'o', 'c', 'a', 'l', 'h', 'o', 's', 't'] := by decide +kernel
  rw [hhost]
  exact ⟨List.cons_ne_nil _ _, List.all_eq_true.mp (by decide)⟩

theorem sameRedis_iff_carried_slash :
    SameRedis asciiTables slashSettings ↔ Carried asciiTables slashSettings :=
  sameRedis_iff_carried isHostName_localhost

/-- A slash in the password ends the authority. -/
theorem not_sameRedis_slash :
    ¬ ∀ (tables : Tables) (settings : RedisSettings),
      IsHostName settings.host.toList → SameRedis tables settings := by
  intro h
  have hcarried := carried_of_sameRedis isHostName_localhost
    (h asciiTables slashSettings isHostName_localhost)
  have hsecret : slashSettings.secret = some "a/b" := by decide +kernel
  have hslash : '/' ∈ "a/b".toList := by decide +kernel
  have hplain := (hcarried.password "a/b" hsecret '/' hslash).2
  cases hplain

end RedisSettings
end AiBackend
