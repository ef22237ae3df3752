import DiffServSimulation.LoadJson
import DiffServSimulation.PacketFilters
import DiffServSimulation.CjsonPrintJson
import DiffServSimulation.CjsonEquality
import DiffServSimulation.CjsonMinify
import DiffServSimulation.CjsonSession
