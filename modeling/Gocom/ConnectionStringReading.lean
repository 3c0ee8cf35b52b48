import Gocom.ConnectionStrings
import Gocom.NumberTexts

/-!
# Reading connection strings

A driver has to read the settings that the options give, with no other setting and none that takes
effect instead of them. The settings are written without quotes, so they are read back exactly if
they need none.
-/

namespace Gocom

open UrlEncoding Utf8Texts JoinedPairs

namespace DBConnectionPoolOptions

/-! ## Settings -/

section Settings

variable (o : DBConnectionPoolOptions)

/-- The settings of Postgres with their keywords. -/
def postgresSettings (address : Bytes × ℤ) : List (Bytes × Bytes) :=
  [(asciiBytes "host", address.1), (asciiBytes "port", decimal address.2), (asciiBytes "user", o.user),
    (asciiBytes "password", o.password), (asciiBytes "dbname", o.database)]

/-- The settings of SQL Server with their names. -/
def mssqlSettings (address : Bytes × ℤ) : List (Bytes × Bytes) :=
  [(asciiBytes "server", address.1), (asciiBytes "user id", o.user), (asciiBytes "password", o.password),
    (asciiBytes "port", decimal address.2), (asciiBytes "database", o.database),
    (asciiBytes "encrypt", asciiBytes "disable")]

/-- A driver has read the settings with the parameters and nothing else, and each setting is in
effect. -/
structure Carries (settings params : List (Bytes × Bytes)) (read : Option (List (Bytes × Bytes))) :
    Prop where
  exact : read = some (settings ++ params)
  inEffect : ∀ p ∈ settings, GoMap.empty.storePairs (settings ++ params) p.1 = some p.2

/-- An order in which the map of parameters is iterated. -/
structure Iterates (m : Option (GoMap Bytes Bytes)) (params : List (Bytes × Bytes)) : Prop where
  nodup : (params.map Prod.fst).Nodup
  entries : ∀ p, p ∈ params ↔ m.getD .empty p.1 = some p.2

end Settings

/-- A setting is in effect unless a parameter has its keyword and another value. -/
theorem inEffect_iff {settings params : List (Bytes × Bytes)} (hsettings : (settings.map Prod.fst).Nodup)
    (hparams : (params.map Prod.fst).Nodup) {p : Bytes × Bytes} (hp : p ∈ settings) :
    GoMap.empty.storePairs (settings ++ params) p.1 = some p.2 ↔
      ∀ q ∈ params, q.1 = p.1 → q.2 = p.2 := by
  rw [GoMap.storePairs_append]
  by_cases hmem : p.1 ∈ params.map Prod.fst
  · obtain ⟨q, hq, hname⟩ := List.mem_map.mp hmem
    rw [← hname, GoMap.storePairs_of_mem hparams hq, Option.some_inj]
    refine ⟨fun hvalue r hr hkey => ?_, fun h => h q hq rfl⟩
    obtain rfl := List.inj_on_of_nodup_map hparams hr hq hkey
    exact hvalue
  · rw [GoMap.storePairs_of_notMem hmem, GoMap.storePairs_of_mem hsettings hp]
    exact iff_of_true rfl fun q hq hkey => absurd (List.mem_map.mpr ⟨q, hq, hkey⟩) hmem

/-! ## Keywords and values -/

def runesPair (p : Bytes × Bytes) : List Char × List Char := (runes p.1, runes p.2)

/-- Settings in UTF-8 that need no quotes. -/
structure Bare (settings : List (Bytes × Bytes)) : Prop where
  valid : ∀ p ∈ settings, Valid p.1 ∧ Valid p.2
  unquoted : SettingTexts.Unquoted keywordSigns (settings.map runesPair)

def encodePair (p : List Char × List Char) : Bytes × Bytes := (encode p.1, encode p.2)

theorem encode_text (ps : List (List Char × List Char)) :
    encode (text ' ' '=' ps) = text space equalsSign (ps.map encodePair) := by
  have hspace : String.utf8EncodeChar ' ' = [space] := by decide
  have hequals : String.utf8EncodeChar '=' = [equalsSign] := by decide
  have hpiece : ∀ p : List Char × List Char, encode (piece '=' p) = piece equalsSign (encodePair p) := by
    intro p
    rw [piece, piece, encode_append, encode_cons, hequals, List.singleton_append]
    rfl
  have hrest : ∀ ps : List (List Char × List Char),
      encode (ps.flatMap fun q => ' ' :: piece '=' q) =
        (ps.map encodePair).flatMap fun q => space :: piece equalsSign q := by
    intro ps
    induction ps with
    | nil => rfl
    | cons p ps ih =>
      rw [List.map_cons, List.flatMap_cons, List.flatMap_cons, encode_append, encode_cons, hspace, hpiece, ih,
        List.singleton_append]
  cases ps with
  | nil => rfl
  | cons p ps => rw [text_cons, List.map_cons, text_cons, encode_append, hpiece, hrest]

theorem encode_runes {s : Bytes} (h : Valid s) : encode (runes s) = s := by
  obtain ⟨cs, rfl⟩ := h
  exact congrArg encode (runes_encode cs)

theorem map_encodePair {settings : List (Bytes × Bytes)} (h : ∀ p ∈ settings, Valid p.1 ∧ Valid p.2) :
    (settings.map runesPair).map encodePair = settings := by
  rw [List.map_map]
  refine (List.map_congr_left fun p hp => ?_).trans settings.map_id
  exact Prod.ext (encode_runes (h p hp).1) (encode_runes (h p hp).2)

theorem map_runesPair (ps : List (List Char × List Char)) : (ps.map encodePair).map runesPair = ps := by
  rw [List.map_map]
  refine (List.map_congr_left fun p _ => ?_).trans ps.map_id
  exact Prod.ext (runes_encode p.1) (runes_encode p.2)

theorem keywordSettings_encode (ps : List (List Char × List Char)) :
    keywordSettings (text space equalsSign (ps.map encodePair)) =
      (SettingTexts.read keywordSigns (text ' ' '=' ps)).map fun settings => settings.map encodePair := by
  rw [← encode_text, keywordSettings, runes_encode]
  rfl

/-- Settings come back from their text exactly if they are in UTF-8 and none of them needs quotes. -/
theorem keywordSettings_text_iff (settings : List (Bytes × Bytes)) :
    keywordSettings (text space equalsSign settings) = some settings ↔ Bare settings := by
  constructor
  · intro h
    obtain ⟨ps, hread, rfl⟩ := Option.map_eq_some_iff.mp h
    have hruns : runes (text space equalsSign (ps.map encodePair)) = text ' ' '=' ps := by
      rw [← encode_text, runes_encode]
    refine ⟨fun p hp => ?_, ?_⟩
    · obtain ⟨q, -, rfl⟩ := List.mem_map.mp hp
      exact ⟨⟨q.1, rfl⟩, ⟨q.2, rfl⟩⟩
    · have hsigns := SettingTexts.read_text_iff.mp ((congrArg _ hruns).symm.trans hread)
      exact (map_runesPair ps).symm ▸ hsigns
  · rintro ⟨hvalid, hunquoted⟩
    have hread : SettingTexts.read keywordSigns (text ' ' '=' (settings.map runesPair)) =
        some (settings.map runesPair) := SettingTexts.read_text hunquoted
    have hback := keywordSettings_encode (settings.map runesPair)
    rw [hread, map_encodePair hvalid] at hback
    exact hback.trans (congrArg some (map_encodePair hvalid))

theorem exParams_eq (params : List (Bytes × Bytes)) :
    exParams params = params.flatMap fun p => space :: piece equalsSign p :=
  List.flatMap_eq_foldl.symm

theorem postgresString_eq (o : DBConnectionPoolOptions) (address : Bytes × ℤ)
    (params : List (Bytes × Bytes)) :
    o.postgresString address.1 address.2 params =
      text space equalsSign (o.postgresSettings address ++ params) := by
  have hhost : asciiBytes "host=" = asciiBytes "host" ++ [equalsSign] := by decide
  have hport : asciiBytes " port=" = space :: (asciiBytes "port" ++ [equalsSign]) := by decide
  have huser : asciiBytes " user=" = space :: (asciiBytes "user" ++ [equalsSign]) := by decide
  have hpassword : asciiBytes " password=" = space :: (asciiBytes "password" ++ [equalsSign]) := by decide
  have hdbname : asciiBytes " dbname=" = space :: (asciiBytes "dbname" ++ [equalsSign]) := by decide
  rw [postgresString, postgresSettings, exParams_eq, hhost, hport, huser, hpassword, hdbname,
    List.cons_append, text_cons]
  simp only [List.flatMap_cons, piece, List.append_assoc, List.cons_append, List.nil_append]

/-! ## Settings between semicolons -/

section Semicolons

variable (l : UnicodeLower)

/-- A name that is read as it is written. -/
structure IsName (k : Bytes) : Prop where
  ne_nil : k ≠ []
  equals : equalsSign ∉ k
  semicolon : semicolon ∉ k
  trimmed : ValidateTags.trimSpace (toLower l k) = k

/-- A value without a semicolon, and without white space at either end. -/
def IsWhole (v : Bytes) : Prop := semicolon ∉ v ∧ ValidateTags.trimSpace v = v

theorem notMem_of_mem_splitOn {a : UInt8} {s part : Bytes} (h : part ∈ s.splitOn a) : a ∉ part := by
  induction s generalizing part with
  | nil =>
    rw [List.splitOn_nil, List.mem_singleton] at h
    exact h ▸ List.not_mem_nil
  | cons c s ih =>
    rw [List.splitOn_cons_eq_if_modifyHead] at h
    split_ifs at h with hc
    · rcases List.mem_cons.mp h with rfl | h
      · exact List.not_mem_nil
      · exact ih h
    · obtain ⟨first, rest, hsplit⟩ := List.exists_cons_of_ne_nil (List.splitOn_ne_nil a s)
      rw [hsplit, List.modifyHead_cons] at h
      rw [hsplit] at ih
      rcases List.mem_cons.mp h with rfl | h
      · rw [List.mem_cons, not_or]
        exact ⟨fun ha => hc (beq_iff_eq.mpr ha.symm), ih List.mem_cons_self⟩
      · exact ih (List.mem_cons_of_mem first h)

variable {l}

theorem IsName.semicolonSetting {k : Bytes} (h : IsName l k) (v : Bytes) :
    semicolonSetting l (k ++ equalsSign :: v) = some (k, ValidateTags.trimSpace v) := by
  rw [DBConnectionPoolOptions.semicolonSetting, splitN2_append h.equals]
  dsimp only
  rw [h.trimmed, if_neg h.ne_nil]
  rfl

/-- No value that is read has a semicolon. -/
theorem notMem_of_mem_semicolonSettings {conn : Bytes} {p : Bytes × Bytes}
    (h : p ∈ semicolonSettings l conn) : semicolon ∉ p.2 := by
  obtain ⟨part, hpart, hp⟩ := List.mem_filterMap.mp h
  have hnot := notMem_of_mem_splitOn hpart
  rw [semicolonSetting, Option.ite_none_left_eq_some] at hp
  obtain rfl := Option.some.inj hp.2
  cases hvalue : (splitN2 part equalsSign).2 with
  | none => exact List.not_mem_nil
  | some value =>
    have hwithin := (ValidateTags.trimSpace_within value).trans (splitN2_suffix hvalue).isInfix
    exact fun hmem => hnot (hwithin.subset hmem)

theorem splitOn_text {ps : List (Bytes × Bytes)} (hps : ps ≠ [])
    (h : ∀ p ∈ ps, semicolon ∉ piece equalsSign p) :
    (text semicolon equalsSign ps).splitOn semicolon = ps.map (piece equalsSign) := by
  induction ps with
  | nil => exact absurd rfl hps
  | cons p ps ih =>
    obtain ⟨hp, hrest⟩ := List.forall_mem_cons.mp h
    cases ps with
    | nil => exact List.splitOn_eq_singleton hp
    | cons q ps =>
      rw [text, List.splitOn_append_cons_self_of_not_mem hp, ih (List.cons_ne_nil q ps) hrest]
      rfl

theorem semicolonSettings_text {ps : List (Bytes × Bytes)} (hps : ps ≠ []) (hnames : ∀ p ∈ ps, IsName l p.1)
    (h : ∀ p ∈ ps, semicolon ∉ p.2) :
    semicolonSettings l (text semicolon equalsSign ps) =
      ps.map fun p => (p.1, ValidateTags.trimSpace p.2) := by
  have hpieces : ∀ p ∈ ps, semicolon ∉ piece equalsSign p := by
    intro p hp
    rw [piece, List.mem_append, List.mem_cons, not_or, not_or]
    exact ⟨(hnames p hp).semicolon, by decide, h p hp⟩
  rw [semicolonSettings, splitOn_text hps hpieces, List.filterMap_map, ← List.filterMap_eq_map]
  exact List.filterMap_congr fun p hp => (hnames p hp).semicolonSetting p.2

/-- Settings come back from their text exactly if every value is whole. -/
theorem semicolonSettings_text_iff {ps : List (Bytes × Bytes)} (hps : ps ≠ [])
    (hnames : ∀ p ∈ ps, IsName l p.1) :
    semicolonSettings l (text semicolon equalsSign ps) = ps ↔ ∀ p ∈ ps, IsWhole p.2 := by
  have htrimmed : ps.map (fun p => (p.1, ValidateTags.trimSpace p.2)) = ps ↔
      ∀ p ∈ ps, ValidateTags.trimSpace p.2 = p.2 := by
    conv_lhs => rhs; rw [← ps.map_id]
    rw [List.map_inj_left]
    exact forall₂_congr fun p _ => ⟨congrArg Prod.snd, fun h => Prod.ext rfl h⟩
  constructor
  · intro h p hp
    have hnot : ∀ q ∈ ps, semicolon ∉ q.2 := fun q hq => notMem_of_mem_semicolonSettings (h.symm ▸ hq)
    rw [semicolonSettings_text hps hnames hnot, htrimmed] at h
    exact ⟨hnot p hp, h p hp⟩
  · intro h
    rw [semicolonSettings_text hps hnames fun p hp => (h p hp).1, htrimmed]
    exact fun p hp => (h p hp).2

end Semicolons

theorem mssqlString_eq (o : DBConnectionPoolOptions) (address : Bytes × ℤ) :
    o.mssqlString address.1 address.2 = text semicolon equalsSign (o.mssqlSettings address) := by
  have hserver : asciiBytes "server=" = asciiBytes "server" ++ [equalsSign] := by decide
  have huser : asciiBytes ";user id=" = semicolon :: (asciiBytes "user id" ++ [equalsSign]) := by decide
  have hpassword : asciiBytes ";password=" = semicolon :: (asciiBytes "password" ++ [equalsSign]) := by decide
  have hport : asciiBytes ";port=" = semicolon :: (asciiBytes "port" ++ [equalsSign]) := by decide
  have hdatabase : asciiBytes ";database=" = semicolon :: (asciiBytes "database" ++ [equalsSign]) := by decide
  have hencrypt : asciiBytes ";encrypt=disable" =
    semicolon :: (asciiBytes "encrypt" ++ equalsSign :: asciiBytes "disable") := by decide
  rw [mssqlString, mssqlSettings, hserver, huser, hpassword, hport, hdatabase, hencrypt]
  simp only [text, piece, List.append_assoc, List.cons_append, List.nil_append]

/-! ## Connection data -/

section ConnectionData

variable (o : DBConnectionPoolOptions)

theorem postgresString_carries_iff (address : Bytes × ℤ) {params : List (Bytes × Bytes)}
    (hparams : (params.map Prod.fst).Nodup) :
    Carries (o.postgresSettings address) params (keywordSettings (o.postgresString address.1 address.2 params)) ↔
      Bare (o.postgresSettings address ++ params) ∧
        ∀ p ∈ o.postgresSettings address, ∀ q ∈ params, q.1 = p.1 → q.2 = p.2 := by
  have hnodup : ((o.postgresSettings address).map Prod.fst).Nodup := by
    have hnames : ["host", "port", "user", "password", "dbname"].map asciiBytes |>.Nodup := by decide
    exact hnames
  rw [postgresString_eq, ← keywordSettings_text_iff]
  constructor
  · exact fun h => ⟨h.exact, fun p hp => (inEffect_iff hnodup hparams hp).mp (h.inEffect p hp)⟩
  · exact fun h => ⟨h.1, fun p hp => (inEffect_iff hnodup hparams hp).mpr (h.2 p hp)⟩

theorem mssqlString_carries_iff (l : UnicodeLower) (address : Bytes × ℤ) :
    Carries (o.mssqlSettings address) [] (some (semicolonSettings l (o.mssqlString address.1 address.2))) ↔
      ∀ p ∈ o.mssqlSettings address, IsWhole p.2 := by
  have hnodup : ((o.mssqlSettings address).map Prod.fst).Nodup := by
    have hnames : ["server", "user id", "password", "port", "database", "encrypt"].map asciiBytes |>.Nodup := by
      decide
    exact hnames
  have hname : ∀ k ∈ (o.mssqlSettings address).map Prod.fst, IsName l k := by
    have hfacts : ∀ k ∈ ["server", "user id", "password", "port", "database", "encrypt"].map asciiBytes,
        (k.all fun b => b.toNat < 128) = true ∧ k ≠ [] ∧ equalsSign ∉ k ∧ semicolon ∉ k ∧
          ValidateTags.trimSpace (k.map lowerAscii) = k := by decide
    intro k hk
    obtain ⟨hascii, hne, hequals, hsemicolon, htrim⟩ := hfacts k hk
    refine ⟨hne, hequals, hsemicolon, ?_⟩
    rwa [toLower_of_all l hascii]
  have hne : o.mssqlSettings address ≠ [] := List.cons_ne_nil _ _
  have hnames : ∀ p ∈ o.mssqlSettings address, IsName l p.1 := fun p hp =>
    hname p.1 (List.mem_map_of_mem hp)
  have hread := semicolonSettings_text_iff hne hnames
  rw [mssqlString_eq, ← hread]
  constructor
  · intro h
    have hexact := Option.some.inj h.exact
    rwa [List.append_nil] at hexact
  · intro h
    have hparams : (([] : List (Bytes × Bytes)).map Prod.fst).Nodup := List.nodup_nil
    refine ⟨by rw [h, List.append_nil], fun p hp => ?_⟩
    exact (inEffect_iff hnodup hparams hp).mpr fun q hq => absurd hq List.not_mem_nil

/-- The settings arrive exactly as they are given if none of them needs quotes, none of the
parameters is a setting with another value, and, for SQL Server, no value has a semicolon or white
space at an end. -/
theorem getConnectionData_carries_iff (l : UnicodeLower) (parseOpts : Bytes → Option (List (Bytes × Bytes)))
    (hparseOpts : ∀ conn, parseOpts conn = keywordSettings conn)
    (splitConnectionString : Bytes → List (Bytes × Bytes))
    (hsplit : ∀ conn, splitConnectionString conn = semicolonSettings l conn) (formatDSN : FormatDSN)
    (tunnel : Option (Except Bytes (Bytes × ℤ))) (params : List (Bytes × Bytes))
    (hparams : Iterates o.connectionParams params) :
    (o.engine = some .postgres ∨ o.engine = some .cockroachDB →
      (Carries (o.postgresSettings (o.ensureSSHTunnel tunnel).1) params
          (parseOpts (o.getConnectionData formatDSN tunnel params).1.connString) ↔
        Bare (o.postgresSettings (o.ensureSSHTunnel tunnel).1 ++ params) ∧
          ∀ p ∈ o.postgresSettings (o.ensureSSHTunnel tunnel).1, ∀ q ∈ params, q.1 = p.1 → q.2 = p.2)) ∧
    (o.engine = some .mssql →
      (Carries (o.mssqlSettings (o.ensureSSHTunnel tunnel).1) []
          (some (splitConnectionString (o.getConnectionData formatDSN tunnel params).1.connString)) ↔
        ∀ p ∈ o.mssqlSettings (o.ensureSSHTunnel tunnel).1, IsWhole p.2)) := by
  constructor
  · intro hengine
    have hconn : (o.getConnectionData formatDSN tunnel params).1.connString =
        o.postgresString (o.ensureSSHTunnel tunnel).1.1 (o.ensureSSHTunnel tunnel).1.2 params := by
      rcases hengine with h | h <;> rw [getConnectionData, h]
    rw [hparseOpts, hconn]
    exact o.postgresString_carries_iff _ hparams.nodup
  · intro hengine
    have hconn : (o.getConnectionData formatDSN tunnel params).1.connString =
        o.mssqlString (o.ensureSSHTunnel tunnel).1.1 (o.ensureSSHTunnel tunnel).1.2 := by
      rw [getConnectionData, hengine]
    rw [hsplit, hconn]
    exact o.mssqlString_carries_iff l _

end ConnectionData

def pooled (password : Bytes) (params : List (Bytes × Bytes)) : DBConnectionPoolOptions where
  engine := some .postgres
  host := asciiBytes "h"
  port := 5432
  user := asciiBytes "u"
  password := password
  database := asciiBytes "d"
  connectionParams := some (GoMap.empty.storePairs params)

/-- A map is iterated over as it was filled. -/
theorem iterates_storePairs {params : List (Bytes × Bytes)} (h : (params.map Prod.fst).Nodup) :
    Iterates (some (GoMap.empty.storePairs params)) params where
  nodup := h
  entries _ := by
    refine ⟨fun hp => GoMap.storePairs_of_mem h hp _, fun hp => ?_⟩
    exact (GoMap.mem_of_storePairs_eq_some hp).resolve_right (fun hnone => nomatch hnone)

def pooledParams : List (Bytes × Bytes) :=
  [(asciiBytes "connect_timeout", asciiBytes "10"), (asciiBytes "sslmode", asciiBytes "disable")]

theorem bare_pooled :
    Bare ((pooled (asciiBytes "p") pooledParams).postgresSettings (asciiBytes "h", 5432) ++ pooledParams) := by
  have hascii : ((pooled (asciiBytes "p") pooledParams).postgresSettings (asciiBytes "h", 5432) ++ pooledParams).all
      (fun p => (p.1.all fun b => decide (b.toNat < 128)) && p.2.all fun b => decide (b.toNat < 128)) = true := by
    decide
  refine ⟨fun p hp => ?_, by decide⟩
  obtain ⟨hkey, hvalue⟩ := Bool.and_eq_true_iff.mp (List.all_eq_true.mp hascii p hp)
  exact ⟨valid_ascii fun b hb => of_decide_eq_true (List.all_eq_true.mp hkey b hb),
    valid_ascii fun b hb => of_decide_eq_true (List.all_eq_true.mp hvalue b hb)⟩

/-- Two parameters, of which neither is a setting of the engine. -/
theorem getConnectionData_carries_pooled :
    Carries ((pooled (asciiBytes "p") pooledParams).postgresSettings (asciiBytes "h", 5432)) pooledParams
      (keywordSettings ((pooled (asciiBytes "p") pooledParams).getConnectionData
        (fun _ _ _ _ => []) none pooledParams).1.connString) :=
  ((getConnectionData_carries_iff (pooled (asciiBytes "p") pooledParams) asciiLower keywordSettings (fun _ => rfl)
    (semicolonSettings asciiLower) (fun _ => rfl) (fun _ _ _ _ => []) none pooledParams
    (iterates_storePairs (by decide))).1 (.inl rfl)).mpr ⟨bare_pooled, by decide⟩

/-- A password is cut at a blank, and what stands behind it is another setting. -/
theorem getConnectionData_cuts_password :
    ¬ Carries ((pooled (asciiBytes "p sslmode=disable") []).postgresSettings (asciiBytes "h", 5432)) []
      (keywordSettings ((pooled (asciiBytes "p sslmode=disable") []).getConnectionData
        (fun _ _ _ _ => []) none []).1.connString) :=
  fun h => absurd h.exact (by decide)

end DBConnectionPoolOptions
end Gocom
