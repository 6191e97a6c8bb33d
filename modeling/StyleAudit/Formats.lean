import StyleAudit.Toml.Settings
import StyleAudit.Yaml.Settings

/-! # Formats of configuration files -/

namespace StyleAudit
set_option autoImplicit false

/-- The readers of TOML and YAML. -/
def Decoders.standard : Decoders where
  toml := Toml.settings
  yaml := Yaml.settings

end StyleAudit
