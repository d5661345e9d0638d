import CloudabiCpp.Argdata.Equality
import CloudabiCpp.Argdata.Containers
import CloudabiCpp.Argdata.Nesting
import CloudabiCpp.Argdata.Relocation
import CloudabiCpp.Argdata.Encoding
import CloudabiCpp.Wrappers.Capabilities
import CloudabiCpp.Wrappers.MemoryConfinement
import CloudabiCpp.Wrappers.Requests
import CloudabiCpp.Generator.Identifiers
import CloudabiCpp.Generator.FlagOperators
import CloudabiCpp.Generator.HeaderScoping
import CloudabiCpp.Generator.NaturalLayout
