import Storefront.Command
import Storefront.Proofs.Asset.Recogniser
import Storefront.Proofs.Asset.UrlTemplate

/-!
URL templates of project configurations. A configuration is loaded if its template has the text of a
field of the file name somewhere, which may also be the text of a field between braces that are
written twice.
-/

namespace Storefront

namespace Config

variable {base : Path} {config : Config}

/-- The template of a configuration has the text of a field. -/
theorem placeholder_infix_of_ofPairs {pairs : Dict Yaml.Data}
    (h : ofPairs base pairs = .ok config) : placeholder <:+: config.assetUrlTemplate.toList := by
  obtain ⟨template, -, h⟩ := except_bind_eq_ok.1 h
  obtain ⟨url, -, h⟩ := except_bind_eq_ok.1 h
  split at h
  · cases h
  · next hoccurs =>
    obtain ⟨legacy, -, h⟩ := except_bind_eq_ok.1 h
    obtain ⟨directory, -, h⟩ := except_bind_eq_ok.1 h
    obtain ⟨output, -, h⟩ := except_bind_eq_ok.1 h
    cases h
    rw [Bool.not_eq_true', Bool.not_eq_false] at hoccurs
    obtain ⟨⟨before, rest⟩, hcut⟩ := Option.isSome_iff_exists.1 hoccurs
    exact ⟨before, rest, (Text.eq_append_of_cutAt? hcut).symm⟩

theorem placeholder_infix_of_ofData {data : Yaml.Data} (h : ofData base data = .ok config) :
    placeholder <:+: config.assetUrlTemplate.toList := by
  unfold ofData at h
  split at h
  · exact placeholder_infix_of_ofPairs h
  · split at h
    · split at h
      · cases h
      · split at h
        · exact placeholder_infix_of_ofPairs h
        · cases h
    · cases h

end Config

namespace Command

variable {host : Host} {t : FileTree} {p : Path} {config : Config}

theorem placeholder_infix_of_loadConfig (h : loadConfig host t p = .ok config) :
    Config.placeholder <:+: config.assetUrlTemplate.toList := by
  obtain ⟨there, -, h⟩ := except_bind_eq_ok.1 h
  split at h
  · obtain ⟨text, -, h⟩ := except_bind_eq_ok.1 h
    have h := except_mapError_eq_ok.1 h
    rw [Config.ofText] at h
    split at h
    · cases h
    · exact Config.placeholder_infix_of_ofData h
  · cases h

/-- A project with a configuration of one line. -/
def projectOf (line : String) : FileTree where
  workingDirectory := ["home"]
  entries := [(["home", "theme-pages.yaml"], .file line.toUTF8)]

theorem exists_config_of_template {template : String}
    (h : (loadConfig host t p).toOption.map (·.assetUrlTemplate) = some template) :
    ∃ config, loadConfig host t p = .ok config ∧ config.assetUrlTemplate = template := by
  obtain ⟨config, hload, htemplate⟩ := Option.map_eq_some_iff.1 h
  exact ⟨config, except_eq_ok_of_toOption hload, htemplate⟩

open Asset Asset.Url

/-- Of a configuration that is loaded, a template that can be read, each of whose fields gives a text
for all names, gives every file a URL. It locates all files if one of the fields shows the quoted
name, and if all do and no brace is written twice; the field of the file name, as it is, shows it.
And only a template that can be read, with a field, locates all files, and then each of its fields
gives a text for all names. -/
theorem locates_of_loadConfig (h : loadConfig host t p = .ok config) :
    (∀ ps, Reads config.assetUrlTemplate.toList ps →
      (∀ f, .field f ∈ ps → ∀ filename, ∃ s, f.textFor host.objects filename = .ok s) →
        (∀ filename, ∃ url, urlFor host.objects config.assetUrlTemplate filename = .ok url) ∧
        (∀ f, .field f ∈ ps → f.Shows host.objects →
          Locates host.objects config.assetUrlTemplate) ∧
        ((∀ c, .brace c ∉ ps) → (∀ f, .field f ∈ ps → f.Shows host.objects) →
          Locates host.objects config.assetUrlTemplate)) ∧
    Field.filename.Shows host.objects ∧
    (Locates host.objects config.assetUrlTemplate →
      ∃ ps, Reads config.assetUrlTemplate.toList ps ∧ (∃ f, .field f ∈ ps) ∧
        ∀ f, .field f ∈ ps → ∀ filename, ∃ s, f.textFor host.objects filename = .ok s) := by
  refine ⟨fun ps hreads hfields => ⟨fun filename => ?_, fun f hf => hreads.locates hfields hf,
    fun hsingle hshows => ?_⟩, Field.shows_filename _, fun hlocates => ?_⟩
  · exact hreads.exists_url fun f hf => hfields f hf filename
  · have hopen : '\x7b' ∈ config.assetUrlTemplate.toList :=
      (placeholder_infix_of_loadConfig h).subset (by decide)
    obtain ⟨f, hf⟩ | ⟨c, hbrace⟩ := hreads.exists_of_isBrace hopen rfl
    · exact hreads.locates hfields hf (hshows f hf)
    · exact absurd hbrace (hsingle c)
  · obtain ⟨ps, hreads, htexts⟩ := exists_reads_of_locates hlocates
    exact ⟨ps, hreads, hreads.exists_field hlocates, htexts⟩

/-- A field with braces that are written twice around it. -/
theorem locates_of_loadConfig_braces :
    ∃ config, loadConfig .standard
      (projectOf "asset_url_template: /\x7b\x7b\x7bfilename\x7d\x7d\x7d") Config.defaultPath =
        .ok config ∧ Locates .texts config.assetUrlTemplate ∧
          urlFor .texts config.assetUrlTemplate "a b" = .ok "/\x7ba%20b\x7d" := by
  obtain ⟨config, hload, htemplate⟩ : ∃ config, loadConfig .standard
      (projectOf "asset_url_template: /\x7b\x7b\x7bfilename\x7d\x7d\x7d") Config.defaultPath =
        .ok config ∧ config.assetUrlTemplate = "/\x7b\x7b\x7bfilename\x7d\x7d\x7d" :=
    exists_config_of_template (by decide +kernel)
  have hreads : Reads config.assetUrlTemplate.toList
      [.char '/', .brace '\x7b', .field .filename, .brace '\x7d'] := by
    rw [htemplate]
    refine ⟨by decide +kernel, ?_⟩
    simp only [List.forall_mem_cons]
    exact ⟨.char rfl, .brace rfl, .field Field.wellFormed_filename, .brace rfl,
      List.forall_mem_nil _⟩
  obtain ⟨hread, hfilename, -⟩ := locates_of_loadConfig hload
  obtain ⟨-, hlocates, -⟩ := hread _ hreads fun f hf filename => by
    obtain rfl : f = .filename := by simpa using hf
    exact (hfilename filename).imp fun _ => And.left
  refine ⟨config, hload, hlocates _ (by simp) hfilename, ?_⟩
  rw [htemplate]
  exact except_eq_ok_of_toOption (by decide +kernel)

/-- The text of a field between braces that are written twice is no field, but the configuration is
loaded. -/
theorem not_locates_doubled :
    ∃ config, loadConfig .standard
      (projectOf "asset_url_template: /a/\x7b\x7bfilename\x7d\x7d") Config.defaultPath =
        .ok config ∧ urlFor .texts config.assetUrlTemplate "hero.png" = .ok "/a/\x7bfilename\x7d" ∧
          ¬quote "hero.png" <:+: "/a/\x7bfilename\x7d".toList := by
  obtain ⟨config, hload, htemplate⟩ : ∃ config, loadConfig .standard
      (projectOf "asset_url_template: /a/\x7b\x7bfilename\x7d\x7d") Config.defaultPath =
        .ok config ∧ config.assetUrlTemplate = "/a/\x7b\x7bfilename\x7d\x7d" :=
    exists_config_of_template (by decide +kernel)
  refine ⟨config, hload, ?_, by decide +kernel⟩
  rw [htemplate]
  exact except_eq_ok_of_toOption (by decide +kernel)

end Command

end Storefront
