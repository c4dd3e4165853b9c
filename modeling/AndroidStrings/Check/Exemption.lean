import AndroidStrings.Text.Search

/-!
# Exemptions

Some entries may stay as they are in the source: those with a given name or beginning of a name,
short values, terms that every language understands, and aliases of other strings.
-/

namespace AndroidStrings

structure Exemptions where
  terms : List Text
  idPrefixes : List Text
  ids : List Text
  maxExemptLength : Nat
  deriving DecidableEq, Repr

namespace Exemptions

def standard : Exemptions :=
  { terms := ["WebView".toList, "Android".toList, "iOS".toList, "Linux".toList, "macOS".toList,
      "Windows".toList, "Desktop".toList, "Mobile".toList, "JavaScript".toList,
      "Cookies".toList, "Port:".toList, "LeakCanary".toList]
    idPrefixes := ["agent_".toList, "log_level_".toList]
    ids := ["android_open_source_project".toList, "jsoup".toList, "infinity".toList,
      "search_action".toList]
    maxExemptLength := 3 }

def isAlias (value : Text) : Bool :=
  value.contains "@string/".toList

/-- Exempt by its name alone. -/
def coversId (exemptions : Exemptions) (id : Text) : Bool :=
  exemptions.ids.contains id || exemptions.idPrefixes.any fun front => front.isPrefixOf id

/-- Exempt by its name or its source value; such an entry is neither missing nor untranslated. -/
def coversEntry (exemptions : Exemptions) (id source : Text) : Bool :=
  exemptions.coversId id || decide (source.length ≤ exemptions.maxExemptLength) ||
    exemptions.terms.contains source || isAlias source

/-- Whether a translation may be the same as its source, or nearly so. -/
def allowsCopy (exemptions : Exemptions) (id source translation : Text) : Bool :=
  exemptions.coversEntry id source || isAlias translation

end Exemptions
end AndroidStrings
