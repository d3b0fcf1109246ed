/-
  THE COMBINED FILE — `cached_combined`, call by call, over runs of boots that fail or stop
  anywhere.

  The file and its key are replaced in several steps, and the next boot trusts the key.  The order
  is: the key is deleted, the new file takes the place of the old one, the new key is written.  So
  at every moment a key that is whole was written for the file that is there (`Matches`); a key that
  was cut short is shorter than any key.

  What is left is whether the key says enough.  It is a hash of one text: the base's path as far as
  it is text, its length, its time unless that is before 1970, and the overlay, one behind the
  other.  `combined_fresh_iff` — over the boots of a set, the file is what was asked for after every
  run exactly when no two of them have one text and differ in what they ask for. `combinedText_inj`
  — paths that are texts of one length, with times that are written, never have.

  The calls are a program of their own (`CacheProg`), so that a boot may stop in front of each of
  them and each may fail; `cacheEffect` says what a call may leave.  A copy or an append that fails
  may leave any front of what it was to write.  The digest is a parameter of which the result asks
  two things: 32 octets, and no two texts of the set with one digest.  The sample has real SHA-256
  digests for the four texts that occur.
-/
import CdjEmu.Lib.Program
import CdjEmu.Mods.Pack

namespace CdjEmu.Mods

open Text

/-! ## The calls -/

/-- What the cache asks of the file system. -/
inductive CacheCall where
  | createDirAll (p : Bytes)
  | metadata (p : Bytes)
  | isFile (p : Bytes)
  | readToString (p : Bytes)
  | copy (src dst : Bytes)
  /-- Open for appending, and write. -/
  | append (p data : Bytes)
  | removeFile (p : Bytes)
  | rename (src dst : Bytes)
  | write (p data : Bytes)

/-- What a call answers. -/
def CacheCall.Reply : CacheCall → Type
  | .metadata _ => Except IoError Metadata
  | .isFile _ => Bool
  | .readToString _ => Except IoError Bytes
  | .createDirAll _ | .copy .. | .append .. | .removeFile _ | .rename .. | .write .. =>
      Except IoError Unit

/-- A program of such calls that may fail. -/
abbrev CacheProg := ExceptT IoError (Prog CacheCall CacheCall.Reply)

namespace CacheProg

/-- One call, and each of them under its name. -/
def ask (c : CacheCall) : Prog CacheCall CacheCall.Reply c.Reply := Prog.perform c

def createDirAll (p : Bytes) : CacheProg Unit := .mk (ask (.createDirAll p))

def metadata (p : Bytes) : CacheProg Metadata := .mk (ask (.metadata p))

def copy (src dst : Bytes) : CacheProg Unit := .mk (ask (.copy src dst))

def append (p data : Bytes) : CacheProg Unit := .mk (ask (.append p data))

def rename (src dst : Bytes) : CacheProg Unit := .mk (ask (.rename src dst))

def write (p data : Bytes) : CacheProg Unit := .mk (ask (.write p data))

/-- Whether the file is there, and its key reads as `key`. -/
def unchanged (out keyPath key : Bytes) : CacheProg Bool := .mk do
  let present : Bool ← ask (.isFile out)
  if present = true then do
    let kept : Except IoError Bytes ← ask (.readToString keyPath)
    pure (.ok (decide (kept.toOption = some key)))
  else pure (.ok false)

/-- A deletion is as good when there was nothing to delete. -/
def deleted : Except IoError Unit → Except IoError Unit
  | .ok () => .ok ()
  | .error e => if e.notFound = true then .ok () else .error e

/-- Delete a file that may not be there. -/
def removeIfThere (p : Bytes) : CacheProg Unit := .mk do
  let gone : Except IoError Unit ← ask (.removeFile p)
  pure (deleted gone)

end CacheProg

/-- The temporary file of the process `pid`. -/
def cacheTmp (pid : Nat) : Bytes := cache ++ bytes "." ++ decimal pid ++ bytes ".tmp"

open CacheProg in
/-- `cached_combined`, call by call. -/
def cachedCombinedCalls (k : Crates) (pid : Nat) (dir base overlay : Bytes) : CacheProg Bytes := do
  CacheProg.createDirAll dir
  let found ← metadata base
  let key := combinedKey k base found overlay
  let out := Path.join dir cache
  let keyPath := Path.join dir cacheKey
  if (← unchanged out keyPath key) = true then pure out
  else do
    let tmp := Path.join dir (cacheTmp pid)
    copy base tmp
    append tmp overlay
    -- the key goes first: a boot that stops behind this leaves a file that is made again
    CacheProg.removeIfThere keyPath
    rename tmp out
    write keyPath key
    pure out

/-! ## Boots -/

/-- One boot: its process, the base with what is known of it and what it holds,
    and what goes behind it. -/
structure Boot where
  pid : Nat
  base : Bytes
  found : Metadata
  data : Bytes
  overlay : Bytes
  len : found.len.toNat = data.length

/-- The file that a boot asks for. -/
def Boot.content (x : Boot) : Bytes := x.data ++ x.overlay

/-- What the key is a hash of. -/
def Boot.text (x : Boot) : Bytes :=
  lossy x.base ++ leBytes 8 x.found.len.toNat ++
    ((x.found.modified.filter (0 ≤ ·)).map fun t => leBytes 16 t.toNat).getD [] ++ x.overlay

/-- The key of a boot. -/
def Boot.key (k : Crates) (x : Boot) : Bytes := combinedKey k x.base x.found x.overlay

/-- It is the digest of the boot's text in hexadecimal. -/
theorem Boot.key_eq (k : Crates) (x : Boot) : x.key k = (k.sha256 x.text).flatMap hexByte := rfl

/-- So boots of one text have one key. -/
theorem key_of_text {k : Crates} {x y : Boot} (h : x.text = y.text) : x.key k = y.key k := by
  rw [Boot.key_eq, h, Boot.key_eq]

/-- Two octets are written differently. -/
theorem flatMap_hexByte_inj : ∀ {a b : Bytes}, a.flatMap hexByte = b.flatMap hexByte → a = b
  | [], [], _ => rfl
  | [], _ :: _, h => by cases h
  | _ :: _, [], h => by cases h
  | c :: a, c' :: b, h => by
    have hdigits : ∀ n < 16, ∀ m < 16, UInt8.ofNat (if n < 10 then 48 + n else 87 + n) =
        UInt8.ofNat (if m < 10 then 48 + m else 87 + m) → n = m := by decide
    obtain ⟨hhi, h⟩ := List.cons.inj h
    obtain ⟨hlo, h⟩ := List.cons.inj h
    have hc := c.toNat_lt
    have hc' := c'.toNat_lt
    have hhi' := hdigits (c.toNat / 16) (by omega) (c'.toNat / 16) (by omega) hhi
    have hlo' := hdigits (c.toNat % 16) (by omega) (c'.toNat % 16) (by omega) hlo
    have heq : c = c' := UInt8.toNat.inj (by omega)
    rw [heq, flatMap_hexByte_inj h]

/-- A key says which text it is a hash of, where SHA-256 does. -/
theorem text_of_key {k : Crates} {S : Set Boot} (hinj : Set.InjOn k.sha256 (Boot.text '' S))
    {x y : Boot} (hx : x ∈ S) (hy : y ∈ S) (h : x.key k = y.key k) : x.text = y.text := by
  rw [Boot.key_eq, Boot.key_eq] at h
  exact hinj (Set.mem_image_of_mem _ hx) (Set.mem_image_of_mem _ hy) (flatMap_hexByte_inj h)

/-! ### The text -/

theorem leBytes_succ (n v : Nat) : leBytes (n + 1) v = UInt8.ofNat v :: leBytes n (v / 256) := by
  unfold leBytes
  rw [List.range_succ_eq_map, List.map_cons, List.map_map]
  refine congrArg₂ List.cons (by simp) (List.map_congr_left fun i _ => ?_)
  show UInt8.ofNat (v / 256 ^ (i + 1)) = UInt8.ofNat (v / 256 / 256 ^ i)
  rw [Nat.div_div_eq_div_mul, pow_succ']

/-- A number has as many octets as it is written with. -/
theorem length_leBytes (n v : Nat) : (leBytes n v).length = n := by
  rw [leBytes, List.length_map, List.length_range]

/-- A number that fits is read back. -/
theorem leBytes_inj : ∀ {n v w : Nat}, v < 256 ^ n → w < 256 ^ n → leBytes n v = leBytes n w → v = w
  | 0, v, w, hv, hw, _ => by
    rw [pow_zero] at hv hw
    omega
  | n + 1, v, w, hv, hw, h => by
    rw [leBytes_succ, leBytes_succ] at h
    obtain ⟨hlow, hhigh⟩ := List.cons.inj h
    rw [pow_succ] at hv hw
    have hdiv : v / 256 = w / 256 := leBytes_inj (by omega) (by omega) hhigh
    have hmod : v % 256 = w % 256 := by
      have := congrArg UInt8.toNat hlow
      rwa [UInt8.toNat_ofNat', UInt8.toNat_ofNat'] at this
    omega

/-- The path is a text of `n` octets, and the time is from 1970 on. -/
structure Boot.Written (n : Nat) (x : Boot) : Prop where
  valid : Valid x.base
  length : x.base.length = n
  dated : ∃ t : Nat, t < 2 ^ 128 ∧ x.found.modified = some (t : Int)

/-- Such boots have one text only when all they ask for is the same. -/
theorem combinedText_inj {n : Nat} {x y : Boot} (hx : x.Written n) (hy : y.Written n)
    (h : x.text = y.text) :
    x.base = y.base ∧ x.found.len = y.found.len ∧ x.found.modified = y.found.modified ∧
    x.overlay = y.overlay := by
  obtain ⟨t, ht, hxt⟩ := hx.dated
  obtain ⟨u, hu, hyu⟩ := hy.dated
  have htext : ∀ {z : Boot} {v : Nat}, z.Written n → z.found.modified = some (v : Int) →
      z.text = z.base ++ (leBytes 8 z.found.len.toNat ++ (leBytes 16 v ++ z.overlay)) := by
    intro z v hz hv
    have hfilter : Option.filter (fun w => decide (0 ≤ w)) (some (v : Int)) = some (v : Int) :=
      Option.filter_some_pos (by simp)
    rw [Boot.text, lossy_of_valid hz.valid, hv, hfilter]
    simp only [Option.map_some, Option.getD_some, Int.toNat_natCast, List.append_assoc]
  rw [htext hx hxt, htext hy hyu] at h
  obtain ⟨hbase, h⟩ := List.append_inj h (hx.length.trans hy.length.symm)
  obtain ⟨hlen, h⟩ := List.append_inj h ((length_leBytes ..).trans (length_leBytes ..).symm)
  obtain ⟨htime, hoverlay⟩ := List.append_inj h ((length_leBytes ..).trans (length_leBytes ..).symm)
  refine ⟨hbase, ?_, ?_, hoverlay⟩
  · exact UInt64.toNat.inj (leBytes_inj x.found.len.toNat_lt y.found.len.toNat_lt hlen)
  · rw [hxt, hyu, leBytes_inj ht hu htime]

/-! ## The folder -/

/-- The folder's files, by their paths. -/
abbrev Folder := Bytes → Option Bytes

/-- What a call of the boot `x` may answer, and the files it leaves.  A call that
    fails may have done a part. -/
def cacheEffect (x : Boot) : Effect Folder CacheCall CacheCall.Reply
  | .createDirAll _, d, _, d' => d' = d
  | .metadata _, d, r, d' => d' = d ∧ ∀ found, r = Except.ok found → found = x.found
  | .isFile p, d, r, d' => d' = d ∧ (r = true → d p ≠ none)
  | .readToString p, d, r, d' => d' = d ∧ ∀ text, r = Except.ok text → d p = some text
  | .copy _ dst, d, r, d' =>
    match r with
    | .ok () => d' = Function.update d dst (some x.data)
    | .error _ => d' = d ∨ ∃ n, d' = Function.update d dst (some (x.data.take n))
  | .append p data, d, r, d' =>
    match r with
    | .ok () => ∃ old, d p = some old ∧ d' = Function.update d p (some (old ++ data))
    | .error _ => d' = d ∨ ∃ old n, d p = some old ∧
        d' = Function.update d p (some (old ++ data.take n))
  | .removeFile p, d, r, d' =>
    match r with
    | .ok () => d p ≠ none ∧ d' = Function.update d p none
    | .error e => d' = d ∧ (e.notFound = true → d p = none)
  | .rename src dst, d, r, d' =>
    match r with
    | .ok () => ∃ t, d src = some t ∧ d' = Function.update (Function.update d dst (some t)) src none
    | .error _ => d' = d
  | .write p data, d, r, d' =>
    match r with
    | .ok () => d' = Function.update d p (some data)
    | .error _ => d' = d ∨ ∃ n, d' = Function.update d p (some (data.take n))

/-- The calls of one boot. -/
def Boot.run (k : Crates) (dir : Bytes) (x : Boot) :
    Prog CacheCall CacheCall.Reply (Except IoError Bytes) :=
  (cachedCombinedCalls k x.pid dir x.base x.overlay).run

/-- The folders that boots of `S` can leave, one after the other: each ends, or
    stops for good somewhere. -/
inductive Left (k : Crates) (dir : Bytes) (S : Set Boot) : Folder → Prop
  | start {d : Folder} (h : d (Path.join dir cacheKey) = none) : Left k dir S d
  | ended {d d' : Folder} {x : Boot} {r : Except IoError Bytes} (hd : Left k dir S d) (hx : x ∈ S)
      (h : Prog.Ends (cacheEffect x) (x.run k dir) d r d') : Left k dir S d'
  | stopped {d d' : Folder} {x : Boot} (hd : Left k dir S d) (hx : x ∈ S)
      (h : Prog.Stops (cacheEffect x) (x.run k dir) d d') : Left k dir S d'

/-- A key that is whole was written for the file that is there. -/
def Matches (k : Crates) (dir : Bytes) (S : Set Boot) (d : Folder) : Prop :=
  ∀ s, d (Path.join dir cacheKey) = some s → s.length < 64 ∨ ∃ x ∈ S, x.key k = s ∧
  d (Path.join dir cache) = some x.content

/-! ### The three paths -/

/-- Names in one folder are told apart by the name. -/
theorem join_inj {p q r : Bytes} (hq : Path.isAbsolute q = false) (hr : Path.isAbsolute r = false)
    (h : Path.join p q = Path.join p r) : q = r := by
  unfold Path.join at h
  rw [hq, hr] at h
  simp only [Bool.false_eq_true, if_false] at h
  split at h
  · exact h
  · split at h
    · exact List.append_cancel_left h
    · exact (List.cons.inj (List.append_cancel_left h)).2

theorem isAbsolute_cacheTmp (pid : Nat) : Path.isAbsolute (cacheTmp pid) = false := rfl

/-- The three files of the cache are different files. -/
theorem key_ne_out (dir : Bytes) : Path.join dir cacheKey ≠ Path.join dir cache := by
  intro h
  exact absurd (join_inj rfl rfl h) (by decide)

theorem tmp_ne_out (pid : Nat) (dir : Bytes) :
    Path.join dir (cacheTmp pid) ≠ Path.join dir cache := by
  intro h
  have hlen := congrArg List.length (join_inj (isAbsolute_cacheTmp pid) rfl h)
  rw [cacheTmp, List.length_append, List.length_append, List.length_append] at hlen
  have hdot : (bytes ".").length = 1 := rfl
  omega

theorem tmp_ne_key (pid : Nat) (dir : Bytes) :
    Path.join dir (cacheTmp pid) ≠ Path.join dir cacheKey := by
  intro h
  have htmp := join_inj (isAbsolute_cacheTmp pid) rfl h
  -- the key's name ends where the file's goes on
  have htake := congrArg (List.take 16) htmp
  exact absurd htake (by
    rw [cacheTmp, List.append_assoc, List.append_assoc, List.take_append_of_le_length (by decide)]
    decide)

/-! ### One boot -/

section OneBoot

variable {k : Crates} {dir : Bytes} {S : Set Boot} {d : Folder} {x : Boot}

theorem length_hex (b : Bytes) : (b.flatMap hexByte).length = 2 * b.length := by
  induction b with
  | nil => rfl
  | cons c b ih =>
    rw [List.flatMap_cons, List.length_append, ih, List.length_cons]
    show 2 + _ = _
    omega

/-- A key has 64 characters. -/
theorem length_key (hlen : ∀ b, (k.sha256 b).length = 32) (x : Boot) : (x.key k).length = 64 := by
  rw [Boot.key, combinedKey, length_hex, hlen]

/-- A folder without a key matches. -/
theorem matches_of_no_key (h : d (Path.join dir cacheKey) = none) : Matches k dir S d := by
  intro s hs
  rw [h] at hs
  cases hs

/-- The temporary file does not matter. -/
theorem Matches.update_tmp (h : Matches k dir S d) (pid : Nat) (t : Option Bytes) :
    Matches k dir S (Function.update d (Path.join dir (cacheTmp pid)) t) := by
  intro s hs
  rw [Function.update_of_ne (tmp_ne_key pid dir).symm] at hs
  rw [Function.update_of_ne (tmp_ne_out pid dir).symm]
  exact h s hs

/-- What a boot that ends well has found or made. -/
def Served (k : Crates) (dir : Bytes) (S : Set Boot) (x : Boot) (r : Except IoError Bytes)
    (d : Folder) : Prop :=
  ∀ p, r = .ok p → p = Path.join dir cache ∧ ∃ y ∈ S, y.key k = x.key k ∧
  d (Path.join dir cache) = some y.content

/-- A boot that failed has served nothing. -/
theorem served_error (e : IoError) : Served k dir S x (.error e) d := by
  intro p hp
  cases hp

/-- The key goes to its place, behind the file. -/
theorem always_write (hlen : ∀ b, (k.sha256 b).length = 32) (hx : x ∈ S)
    (hkey : d (Path.join dir cacheKey) = none) (hout : d (Path.join dir cache) = some x.content) :
    Prog.Always (cacheEffect x) (Matches k dir S) (Served k dir S x)
      (do CacheProg.write (Path.join dir cacheKey) (x.key k); pure (Path.join dir cache) :
        CacheProg Bytes).run d := by
  have hwritten : ∀ s, (s.length < 64 ∨ s = x.key k) →
      Matches k dir S (Function.update d (Path.join dir cacheKey) (some s)) := by
    intro s hs s' hs'
    rw [Function.update_self] at hs'
    cases hs'
    rcases hs with hs | rfl
    · exact .inl hs
    · refine .inr ⟨x, hx, rfl, ?_⟩
      rw [Function.update_of_ne (key_ne_out dir).symm]
      exact hout
  refine Prog.Always.perform (matches_of_no_key hkey) ?_
  rintro (e | ⟨⟨⟩⟩) d' hr
  · refine Prog.Always.pure ?_ (served_error e)
    rcases hr with rfl | ⟨n, rfl⟩
    · exact matches_of_no_key hkey
    · -- a key that was cut short
      refine hwritten _ ?_
      by_cases hn : n < 64
      · refine .inl ?_
        rw [List.length_take]
        omega
      · exact .inr (List.take_of_length_le (by rw [length_key hlen]; omega))
  · obtain rfl : d' = Function.update d (Path.join dir cacheKey) (some (x.key k)) := hr
    refine Prog.Always.pure (hwritten _ (.inr rfl)) ?_
    rintro p ⟨⟩
    refine ⟨rfl, x, hx, rfl, ?_⟩
    rw [Function.update_of_ne (key_ne_out dir).symm]
    exact hout

/-- The file goes to its place, where there is no key, and then the key. -/
theorem always_rename (hlen : ∀ b, (k.sha256 b).length = 32) (hx : x ∈ S)
    (hkey : d (Path.join dir cacheKey) = none)
    (htmp : d (Path.join dir (cacheTmp x.pid)) = some x.content) :
    Prog.Always (cacheEffect x) (Matches k dir S) (Served k dir S x)
      (do
        CacheProg.rename (Path.join dir (cacheTmp x.pid)) (Path.join dir cache)
        CacheProg.write (Path.join dir cacheKey) (x.key k)
        pure (Path.join dir cache) : CacheProg Bytes).run d := by
  refine Prog.Always.perform (matches_of_no_key hkey) ?_
  rintro (e | ⟨⟨⟩⟩) d' hr
  · obtain rfl : d' = d := hr
    exact Prog.Always.pure (matches_of_no_key hkey) (served_error e)
  · obtain ⟨t, ht, rfl⟩ := hr
    obtain rfl : x.content = t := Option.some.inj (htmp.symm.trans ht)
    refine always_write hlen hx ?_ ?_
    · rw [Function.update_of_ne (tmp_ne_key x.pid dir).symm, Function.update_of_ne (key_ne_out dir)]
      exact hkey
    · rw [Function.update_of_ne (tmp_ne_out x.pid dir).symm, Function.update_self]

/-- The old key goes. -/
theorem always_removeIfThere (h : Matches k dir S d) :
    Prog.Always (cacheEffect x) (Matches k dir S)
      (fun r d' => r = .ok () → d' (Path.join dir cacheKey) = none ∧
        ∀ p, p ≠ Path.join dir cacheKey → d' p = d p)
      (CacheProg.removeIfThere (Path.join dir cacheKey)).run d := by
  refine Prog.Always.perform h ?_
  rintro (e | ⟨⟨⟩⟩) d' hr
  · obtain ⟨rfl, hnone⟩ := hr
    refine Prog.Always.pure h fun hok => ⟨hnone ?_, fun _ _ => rfl⟩
    by_contra hthere
    rw [CacheProg.deleted, if_neg hthere] at hok
    cases hok
  · obtain ⟨-, rfl⟩ := hr
    have hgone : Function.update d (Path.join dir cacheKey) none (Path.join dir cacheKey) = none :=
      Function.update_self ..
    refine Prog.Always.pure (matches_of_no_key hgone) fun _ => ⟨hgone, fun p hp => ?_⟩
    rw [Function.update_of_ne hp]

/-- A look changes nothing, and says yes to a key that is there only. -/
theorem always_unchanged (h : Matches k dir S d) (key : Bytes) :
    Prog.Always (cacheEffect x) (Matches k dir S)
      (fun r d' => d' = d ∧ (r = .ok true → d (Path.join dir cacheKey) = some key))
      (CacheProg.unchanged (Path.join dir cache) (Path.join dir cacheKey) key).run d := by
  refine Prog.Always.perform h ?_
  intro (present : Bool) d' hr
  obtain ⟨rfl, -⟩ := hr
  by_cases hpresent : present = true
  · rw [if_pos hpresent]
    refine Prog.Always.perform h ?_
    intro (kept : Except IoError Bytes) d' hr
    obtain ⟨rfl, hkept⟩ := hr
    refine Prog.Always.pure h ⟨rfl, fun hok => ?_⟩
    have hkey : kept.toOption = some key := of_decide_eq_true (Except.ok.inj hok)
    cases kept with
    | error e => cases hkey
    | ok text =>
      cases hkey
      exact hkept _ rfl
  · rw [if_neg hpresent]
    exact Prog.Always.pure h ⟨rfl, fun hok => by cases hok⟩

/-- **One boot.**  Wherever it stops, a key that is whole was written for the file that is there;
    and where it ends well, the file is one that was made under its key. -/
theorem always_run (hlen : ∀ b, (k.sha256 b).length = 32) (hx : x ∈ S) (h : Matches k dir S d) :
    Prog.Always (cacheEffect x) (Matches k dir S) (Served k dir S x) (x.run k dir) d := by
  refine Prog.Always.perform h ?_
  rintro (e | ⟨⟨⟩⟩) d' hr
  · obtain rfl : d' = d := hr
    exact Prog.Always.pure h (served_error e)
  obtain rfl : d' = d := hr
  refine Prog.Always.perform h ?_
  rintro (e | found) d' ⟨rfl, hfound⟩
  · exact Prog.Always.pure h (served_error e)
  obtain rfl := hfound found rfl
  refine Prog.Always.andThen (always_unchanged h (x.key k)) ?_ fun e d' hI _ => served_error e
  intro same d' hI hsame
  obtain ⟨rfl, hkey⟩ := hsame
  by_cases hsame : same = true
  · -- the file that is there
    rw [if_pos hsame]
    refine Prog.Always.pure hI ?_
    rintro p ⟨⟩
    refine ⟨rfl, ?_⟩
    rcases h _ (hkey (by rw [hsame])) with hshort | ⟨y, hy, hykey, hout⟩
    · rw [length_key hlen] at hshort
      exact absurd hshort (by decide)
    · exact ⟨y, hy, hykey, hout⟩
  rw [if_neg hsame]
  refine Prog.Always.perform h ?_
  rintro (e | ⟨⟨⟩⟩) d₁ hr
  · refine Prog.Always.pure ?_ (served_error e)
    rcases hr with rfl | ⟨n, rfl⟩
    · exact h
    · exact h.update_tmp x.pid _
  obtain rfl : d₁ = Function.update d' (Path.join dir (cacheTmp x.pid)) (some x.data) := hr
  refine Prog.Always.perform (h.update_tmp x.pid _) ?_
  rintro (e | ⟨⟨⟩⟩) d₂ hr
  · refine Prog.Always.pure ?_ (served_error e)
    rcases hr with rfl | ⟨old, n, -, rfl⟩
    · exact h.update_tmp x.pid _
    · exact (h.update_tmp x.pid _).update_tmp x.pid _
  obtain ⟨old, hold, rfl⟩ := hr
  rw [Function.update_self] at hold
  cases hold
  have hmade := (h.update_tmp x.pid (some x.data)).update_tmp x.pid (some (x.data ++ x.overlay))
  refine Prog.Always.andThen (always_removeIfThere hmade) ?_ fun e d' hI _ => served_error e
  rintro ⟨⟩ d₃ hI hgone
  obtain ⟨hnone, hrest⟩ := hgone rfl
  refine always_rename hlen hx hnone ?_
  rw [hrest _ (tmp_ne_key x.pid dir), Function.update_self]
  rfl

end OneBoot

/-! ## Runs of boots -/

section Runs

variable {k : Crates} {dir : Bytes} {S : Set Boot} {d : Folder} {x y : Boot}

/-- What earlier boots have left is in order. -/
theorem Left.matches (hlen : ∀ b, (k.sha256 b).length = 32) (h : Left k dir S d) :
    Matches k dir S d := by
  induction h with
  | start h => exact matches_of_no_key h
  | ended _ hx he ih => exact ((always_run hlen hx ih).ends he).1
  | stopped _ hx hs ih => exact (always_run hlen hx ih).stops hs

/-- In a folder that has none of the three files, a boot can make them. -/
theorem ends_fresh (k : Crates) (dir : Bytes) (x : Boot)
    (hkey : d (Path.join dir cacheKey) = none) :
    ∃ d', Prog.Ends (cacheEffect x) (x.run k dir) d (.ok (Path.join dir cache)) d' ∧
      d' (Path.join dir cache) = some x.content ∧ d' (Path.join dir cacheKey) = some (x.key k) := by
  let tmp := Path.join dir (cacheTmp x.pid)
  let d₁ := Function.update d tmp (some x.data)
  let d₂ := Function.update d₁ tmp (some (x.data ++ x.overlay))
  let d₃ := Function.update (Function.update d₂ (Path.join dir cache) (some x.content)) tmp none
  have hkey₂ : d₂ (Path.join dir cacheKey) = none := by
    show Function.update (Function.update d tmp _) tmp _ _ = none
    rw [Function.update_of_ne (tmp_ne_key x.pid dir).symm,
      Function.update_of_ne (tmp_ne_key x.pid dir).symm, hkey]
  refine ⟨Function.update d₃ (Path.join dir cacheKey) (some (x.key k)), ?_, ?_, ?_⟩
  · refine ⟨.ok (), d, rfl, .ok x.found, d, ⟨rfl, fun found h => (Except.ok.inj h).symm⟩, ?_⟩
    refine ⟨false, d, ⟨rfl, fun h => by cases h⟩, ?_⟩
    refine ⟨.ok (), d₁, rfl, .ok (), d₂, ⟨x.data, Function.update_self .., rfl⟩, ?_⟩
    refine ⟨.error ⟨true, []⟩, d₂, ⟨rfl, fun _ => hkey₂⟩, ?_⟩
    refine ⟨.ok (), d₃, ⟨x.content, Function.update_self .., rfl⟩, ?_⟩
    exact ⟨.ok (), _, rfl, rfl, rfl⟩
  · rw [Function.update_of_ne (key_ne_out dir).symm]
    show Function.update (Function.update d₂ _ _) tmp none _ = _
    rw [Function.update_of_ne (tmp_ne_out x.pid dir).symm, Function.update_self]
  · rw [Function.update_self]

/-- A boot of the key that is there takes the file as it is. -/
theorem ends_kept (hout : d (Path.join dir cache) ≠ none)
    (hkey : d (Path.join dir cacheKey) = some (x.key k)) :
    Prog.Ends (cacheEffect x) (x.run k dir) d (.ok (Path.join dir cache)) d := by
  refine ⟨.ok (), d, rfl, .ok x.found, d, ⟨rfl, fun found h => (Except.ok.inj h).symm⟩, ?_⟩
  refine ⟨true, d, ⟨rfl, fun _ => hout⟩, ?_⟩
  refine ⟨.ok (x.key k), d, ⟨rfl, fun text h => Except.ok.inj h ▸ hkey⟩, ?_⟩
  show Prog.Ends _ (ExceptT.bindCont _ (.ok (decide (some (x.key k) = some (x.key k))))) d _ d
  rw [decide_eq_true rfl]
  exact ⟨rfl, rfl⟩

/-- **When the file is never stale.**  Over the boots of `S`, the file is what was asked for after
    every run, however its boots fail or stop, exactly when no two of them have one text and ask for
    different files. -/
theorem combined_fresh_iff (k : Crates) (dir : Bytes) (S : Set Boot)
    (hlen : ∀ b, (k.sha256 b).length = 32) (hinj : Set.InjOn k.sha256 (Boot.text '' S)) :
    (∀ d x p d', Left k dir S d → x ∈ S → Prog.Ends (cacheEffect x) (x.run k dir) d (.ok p) d' →
      p = Path.join dir cache ∧ d' p = some x.content) ↔
    ∀ x ∈ S, ∀ y ∈ S, x.text = y.text → x.content = y.content := by
  constructor
  · intro h x hx y hy htext
    obtain ⟨d₁, hmade, hout, hkey⟩ := ends_fresh k dir x (d := fun _ => none) rfl
    have hleft : Left k dir S d₁ := .ended (.start rfl) hx hmade
    have hsame : x.key k = y.key k := key_of_text htext
    have hkept : Prog.Ends (cacheEffect y) (y.run k dir) d₁ (.ok (Path.join dir cache)) d₁ :=
      ends_kept (by rw [hout]; simp) (by rw [hkey, hsame])
    have hfresh := (h d₁ y _ d₁ hleft hy hkept).2
    rw [hout] at hfresh
    exact Option.some.inj hfresh
  · intro h d x p d' hleft hx hends
    obtain ⟨rfl, y, hy, hkey, hout⟩ :=
      ((always_run hlen hx (hleft.matches hlen)).ends hends).2 p rfl
    refine ⟨rfl, ?_⟩
    rw [hout, h y hy x hx (text_of_key hinj hy hx hkey)]

end Runs

/-! ### Two bases -/

/-- A boot of the base at `/fw/` and one octet more, last changed one second
    into 1970, without mods. -/
def boot (c : UInt8) (data : Bytes) (h : data.length = 4) : Boot where
  pid := 1
  base := bytes "/fw/" ++ [c]
  found := { kind := .file, mode := 0o644, len := 4, modified := some 1000000000 }
  data
  overlay := []
  len := h.symm

/-- The SHA-256 of the text that the boot of `/fw/a` hashes, and of that for `/fw/b`. -/
def digestA : Bytes :=
  [0x5e, 0x71, 0x8a, 0xa4, 0x24, 0x49, 0xfa, 0x2f, 0x8a, 0xed, 0x52, 0xd0, 0xc8, 0x62, 0xfd, 0x90,
   0xab, 0xb0, 0xbb, 0x1b, 0x15, 0xc6, 0xfc, 0xf7, 0x4a, 0x06, 0xb2, 0x2e, 0x5e, 0x06, 0x8d, 0x65]

/-- The SHA-256 digests of the texts of the sample. -/
def digestB : Bytes :=
  [0xa5, 0xdf, 0xb8, 0xf8, 0xed, 0x1b, 0x6e, 0x31, 0xfc, 0x36, 0x7a, 0xed, 0x20, 0xdf, 0x69, 0x8e,
   0x45, 0x94, 0x2f, 0x2d, 0x5b, 0x39, 0xca, 0x1f, 0x89, 0xbc, 0x3d, 0x76, 0x9c, 0xc8, 0x9e, 0x77]

/-- And of the one text for both paths that are none. -/
def digestBinary : Bytes :=
  [0x52, 0x64, 0xe9, 0x47, 0x48, 0xcd, 0xbd, 0xec, 0x32, 0xa8, 0x1e, 0xaa, 0x18, 0x9e, 0xde, 0xfa,
   0x89, 0x70, 0x07, 0xb2, 0x46, 0x7f, 0x70, 0x7b, 0x90, 0xe1, 0xd2, 0xc8, 0xff, 0xd1, 0x63, 0xc8]

/-- SHA-256 as far as the boots below need it. -/
def digests : Crates where
  toml := fun _ => .error []
  debug := id
  gzip := id
  sha256 := fun b =>
    if b = (boot 97 (bytes "07a1") rfl).text then digestA
    else if b = (boot 98 (bytes "07b1") rfl).text then digestB
    else digestBinary

/-- Each has 32 octets. -/
theorem length_digests (b : Bytes) : (digests.sha256 b).length = 32 := by
  show (if b = _ then digestA else if b = _ then digestB else digestBinary).length = 32
  split
  · rfl
  · split <;> rfl

/-- Two bases whose paths are texts. -/
def textBoots : Set Boot := {x | x = boot 97 (bytes "07a1") rfl ∨ x = boot 98 (bytes "07b1") rfl}

/-- Two bases whose paths end in an octet that is no text. -/
def binaryBoots : Set Boot :=
  {x | x = boot 128 (bytes "07a1") rfl ∨ x = boot 129 (bytes "07b1") rfl}

/-- Boots whose texts have different digests are served fresh images. -/
theorem text_boots_fresh : Set.InjOn digests.sha256 (Boot.text '' textBoots) ∧
    ∀ d x p d', Left digests (bytes "/i") textBoots d → x ∈ textBoots →
      Prog.Ends (cacheEffect x) (x.run digests (bytes "/i")) d (.ok p) d' →
      p = Path.join (bytes "/i") cache ∧ d' p = some x.content := by
  have hinj : Set.InjOn digests.sha256 (Boot.text '' textBoots) := by
    rintro _ ⟨x, rfl | rfl, rfl⟩ _ ⟨y, rfl | rfl, rfl⟩ h
    · rfl
    · exact absurd h (by decide)
    · exact absurd h (by decide)
    · rfl
  refine ⟨hinj, (combined_fresh_iff digests (bytes "/i") textBoots length_digests hinj).mpr ?_⟩
  rintro x (rfl | rfl) y (rfl | rfl) h
  · rfl
  · exact absurd h (by decide)
  · exact absurd h (by decide)
  · rfl

/-- The two have one lossy path: the second boot is given the first one's file. -/
theorem binary_base_stale : Set.InjOn digests.sha256 (Boot.text '' binaryBoots) ∧
    (∀ x ∈ binaryBoots, ∀ y ∈ binaryBoots, x.base = y.base → x.found.len = y.found.len →
      x.found.modified = y.found.modified → x.data = y.data) ∧
    ∃ d, Left digests (bytes "/i") binaryBoots d ∧ ∃ x ∈ binaryBoots, ∃ p d',
      Prog.Ends (cacheEffect x) (x.run digests (bytes "/i")) d (.ok p) d' ∧
      d' p ≠ some x.content := by
  have hsame : (boot 128 (bytes "07a1") rfl).text = (boot 129 (bytes "07b1") rfl).text := by decide
  refine ⟨?_, ?_, ?_⟩
  · rintro _ ⟨x, rfl | rfl, rfl⟩ _ ⟨y, rfl | rfl, rfl⟩ h
    · rfl
    · exact hsame
    · exact hsame.symm
    · rfl
  · rintro x (rfl | rfl) y (rfl | rfl) hbase _ _
    · rfl
    · exact absurd hbase (by decide)
    · exact absurd hbase (by decide)
    · rfl
  · obtain ⟨d, hmade, hout, hkey⟩ :=
      ends_fresh digests (bytes "/i") (boot 128 (bytes "07a1") rfl) (d := fun _ => none) rfl
    refine ⟨d, .ended (.start rfl) (.inl rfl) hmade, boot 129 (bytes "07b1") rfl, .inr rfl,
      Path.join (bytes "/i") cache, d, ?_, ?_⟩
    · refine ends_kept (by rw [hout]; simp) ?_
      rw [hkey, key_of_text hsame]
    · rw [hout]
      decide

end CdjEmu.Mods
